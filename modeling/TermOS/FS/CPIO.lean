import TermOS.FS.VFS

/-!
# CPIO archives

Model of `kernel/src/FS/CPIO.c`: the hexadecimal fields of the header and
`FSCPIOMount`, which walks over an archive in memory and links one node for
each entry below a fresh root. `VMHeapAllocate` is a parameter: the result of
the `n`-th call.
-/

namespace TermOS.FS

open TermOS.Lib TermOS.Kernel

/-! ## Section 1: The header -/

/-- `FSCPIO_ALIGN4` -/
def fsCPIOAlign4 (x : Nat) : Nat := (x + 3) % 2 ^ 64 / 4 * 4

-- Offsets of the fields of the header that the mount reads.
namespace FSCPIOHeader

/-- `sizeof(FSCPIOHeader)` -/
def size : Nat := 110

/-- `magic` -/
def magic : Nat := 0

/-- `inode` -/
def inode : Nat := 6

/-- `mode` -/
def mode : Nat := 14

/-- `fileLength` -/
def fileLength : Nat := 54

/-- `nameLength` -/
def nameLength : Nat := 94

end FSCPIOHeader

/-- What a character adds to the result of `sFSCPIOHexadecimalToUInt64`. -/
def hexadecimalDigit (character : UInt8) : Nat :=
  if '0'.toUInt8 ≤ character ∧ character ≤ '9'.toUInt8 then character.toNat - 48
  else if 'A'.toUInt8 ≤ character ∧ character ≤ 'F'.toUInt8 then character.toNat - 65 + 10
  else if 'a'.toUInt8 ≤ character ∧ character ≤ 'f'.toUInt8 then character.toNat - 97 + 10
  else 0

/-- The loop of `sFSCPIOHexadecimalToUInt64`. -/
def hexadecimalLoop (result : Nat) (string : Memory) : Nat → Nat
  | 0 => result
  | length + 1 =>
    hexadecimalLoop ((result * 16 % 2 ^ 64 + hexadecimalDigit (string 0)) % 2 ^ 64)
      (string.advance 1) length

/-- `sFSCPIOHexadecimalToUInt64` -/
def fsCPIOHexadecimalToUInt64 (string : Memory) (length : Nat) : Nat := hexadecimalLoop 0 string length

theorem hexadecimalLoop_succ (result : Nat) (string : Memory) (length : Nat) :
    hexadecimalLoop result string (length + 1) =
      (hexadecimalLoop result string length * 16 % 2 ^ 64 + hexadecimalDigit (string length)) %
        2 ^ 64 := by
  induction length generalizing result string with
  | zero => rfl
  | succ length ih =>
    rw [hexadecimalLoop, ih, Memory.advance_apply, Nat.add_comm 1 length]
    rfl

/-! ## Section 2: Mounting -/

/-- The reasons for which `FSCPIOMount` panics. -/
inductive CPIOPanic
  | rootNode
  | invalidMagic
  | newNode
  deriving DecidableEq, Repr

/-- The text passed to `OSPanic`. -/
def CPIOPanic.message : CPIOPanic → String
  | rootNode => "CPIO: Failed to allocate memory for root node"
  | invalidMagic => "CPIO: Invalid magic detected in StartupVolume"
  | newNode => "CPIO: Failed to allocate memory for new node"

/-- `gFSCPIOOperations` -/
def gFSCPIOOperations : FSVNodeOperations where
  readFunction := some .fsCPIORead
  openFunction := none

/-- The magic of the newc format. -/
def newcMagic : List UInt8 := ['0', '7', '0', '7', '0', '1'].map Char.toUInt8

/-- The name of the entry that ends an archive. -/
def trailerName : List UInt8 := ['T', 'R', 'A', 'I', 'L', 'E', 'R', '!', '!', '!'].map Char.toUInt8

section Mount

variable (vmHeapAllocate : Nat → Nat) (m : Memory)

/-- `VMHeapAllocate(sizeof(FSVNode))` and, unless it returns null, the
`MemorySet` of the node. -/
def FSVolume.allocateNode (volume : FSVolume) : Option (Nat × FSVolume) :=
  let node := vmHeapAllocate volume.allocated
  if node = 0 then none
  else some (node, { volume.setNode node .zero with allocated := volume.allocated + 1 })

/-- `offsetToData` of the header at `currentPointer`. -/
def offsetToData (currentPointer : Nat) : Nat :=
  let nameSize := fsCPIOHexadecimalToUInt64 (m.advance (currentPointer + FSCPIOHeader.nameLength)) 8
  fsCPIOAlign4 (FSCPIOHeader.size + nameSize)

/-- `fileSize` of the header at `currentPointer`. -/
def fileSize (currentPointer : Nat) : Nat :=
  fsCPIOHexadecimalToUInt64 (m.advance (currentPointer + FSCPIOHeader.fileLength)) 8

/-- The fields of `newNode` for the entry at `currentPointer`. -/
def cpioNode (currentPointer : Nat) : FSVNode :=
  let fileName := m.advance (currentPointer + FSCPIOHeader.size)
  let mode := fsCPIOHexadecimalToUInt64 (m.advance (currentPointer + FSCPIOHeader.mode)) 8
  { FSVNode.zero with
    name := stringCopyWithLimit FSVNode.zero.name 0 fileName (sizeofName - 1)
    dataLength := fileSize m currentPointer
    inodeIdentifier :=
      fsCPIOHexadecimalToUInt64 (m.advance (currentPointer + FSCPIOHeader.inode)) 8 % 2 ^ 32
    operations := some gFSCPIOOperations
    implementationData := (currentPointer + offsetToData m currentPointer) % 2 ^ 64
    flags := if mode &&& 0xF000 = 0x4000 then kFSVNodeFlagDirectory else kFSVNodeFlagFile }

/-- Hanging `newNode` behind the nodes that the root has already. -/
def FSVolume.linkNode (volume : FSVolume) (rootNode tailNode newNode : Nat) : FSVolume :=
  if (volume.node rootNode).childNode = 0 then
    volume.setNode rootNode { volume.node rootNode with childNode := newNode }
  else if tailNode ≠ 0 then
    volume.setNode tailNode { volume.node tailNode with nextNode := newNode }
  else volume

/-- The loop of `FSCPIOMount`. `none` means that the fuel ran out. -/
def fsCPIOMountLoop (endPointer rootNode : Nat) :
    Nat → FSVolume → Nat → Nat → Option (Except CPIOPanic FSVolume)
  | 0, _, _, _ => none
  | fuel + 1, volume, currentPointer, tailNode =>
    -- only the start of the entry is compared with the end of the archive
    if ¬ currentPointer < endPointer then some (.ok volume)
    else if stringCompareWithLimit (m.advance (currentPointer + FSCPIOHeader.magic)) newcMagic 6 ≠ 0 then
      some (.error .invalidMagic)
    -- `break`
    else if stringCompare (m.advance (currentPointer + FSCPIOHeader.size)) trailerName = 0 then
      some (.ok volume)
    else
      match volume.allocateNode vmHeapAllocate with
      | none => some (.error .newNode)
      | some (newNode, volume) =>
        let volume := (volume.setNode newNode (cpioNode m currentPointer)).linkNode rootNode
          tailNode newNode
        -- the next header begins behind the padded content
        let dataLengthAligned := fsCPIOAlign4 (fileSize m currentPointer)
        fsCPIOMountLoop endPointer rootNode fuel volume
          ((currentPointer + (offsetToData m currentPointer + dataLengthAligned)) % 2 ^ 64) newNode

/-- `FSCPIOMount`: the root node and the nodes of the volume. -/
def fsCPIOMount (baseAddress totalSize fuel : Nat) : Option (Except CPIOPanic (Nat × FSVolume)) :=
  let endPointer := (baseAddress + totalSize) % 2 ^ 64
  let volume : FSVolume := { node := fun _ => .zero, allocated := 0 }
  match volume.allocateNode vmHeapAllocate with
  | none => some (.error .rootNode)
  | some (rootNode, volume) =>
    let volume := volume.setNode rootNode
      { FSVNode.zero with
        name := stringCopy FSVNode.zero.name 0 ['/'.toUInt8]
        flags := kFSVNodeFlagDirectory
        operations := some gFSCPIOOperations }
    (fsCPIOMountLoop vmHeapAllocate m endPointer rootNode fuel volume baseAddress 0).map
      fun result => result.map fun volume => (rootNode, volume)

end Mount

end TermOS.FS
