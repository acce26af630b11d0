import TermOS.Kernel.CString
import TermOS.Kernel.String
import TermOS.Lib.Links

/-!
# File system nodes

Model of `kernel/inc/FS/VFS.h` and `kernel/src/FS/VFS.c`, and of `FSCPIORead` of
`kernel/src/FS/CPIO.c`, the only function that an operations table points to.
Nodes live at addresses; a node that a pointer refers to is looked up in the
store. The archive's own bytes are in the byte memory, which nodes never
overlap.
-/

namespace TermOS.FS

open TermOS.Lib TermOS.Kernel

/-! ## Section 1: Nodes -/

/-- What the `read` field of an operations table can point to. -/
inductive FSVNodeReadFunction
  | fsCPIORead
  deriving DecidableEq, Repr

/-- What the `open` field of an operations table can point to: the kernel
defines no such function. -/
inductive FSVNodeOpenFunction
  deriving DecidableEq, Repr

/-- `FSVNodeOperations`; a null pointer is `none`. -/
structure FSVNodeOperations where
  readFunction : Option FSVNodeReadFunction
  openFunction : Option FSVNodeOpenFunction
  deriving DecidableEq, Repr

/-- `kFSVNodeFlagFile` -/
def kFSVNodeFlagFile : Nat := 0x01

/-- `kFSVNodeFlagDirectory` -/
def kFSVNodeFlagDirectory : Nat := 0x02

/-- `sizeof(node->name)` -/
def sizeofName : Nat := 256

/-- `FSVNode`. Pointers are addresses, 0 is null. -/
structure FSVNode where
  name : Memory
  flags : Nat
  inodeIdentifier : Nat
  dataLength : Nat
  operations : Option FSVNodeOperations
  implementationData : Nat
  childNode : Nat
  nextNode : Nat

/-- A node after `MemorySet(node, 0, sizeof(FSVNode))`. -/
def FSVNode.zero : FSVNode where
  name := fun _ => 0
  flags := 0
  inodeIdentifier := 0
  dataLength := 0
  operations := none
  implementationData := 0
  childNode := 0
  nextNode := 0

/-- The nodes of a volume, by address, and how many have been allocated. -/
structure FSVolume where
  node : Nat → FSVNode
  allocated : Nat

/-- Overwrite the node at an address. -/
def FSVolume.setNode (volume : FSVolume) (address : Nat) (node : FSVNode) : FSVolume :=
  { volume with node := Function.update volume.node address node }

@[simp] theorem FSVolume.setNode_same (volume : FSVolume) (address : Nat) (node : FSVNode) :
    (volume.setNode address node).node address = node := Function.update_self ..

theorem FSVolume.setNode_ne (volume : FSVolume) {address other : Nat} (node : FSVNode)
    (h : other ≠ address) : (volume.setNode address node).node other = volume.node other :=
  Function.update_of_ne h ..

@[simp] theorem FSVolume.setNode_allocated (volume : FSVolume) (address : Nat) (node : FSVNode) :
    (volume.setNode address node).allocated = volume.allocated := rfl

/-- The successor of a node. -/
def FSVolume.next (volume : FSVolume) (node : Nat) : Nat := (volume.node node).nextNode

theorem FSVolume.next_setNode (volume : FSVolume) (address : Nat) (node : FSVNode) :
    (volume.setNode address node).next = Function.update volume.next address node.nextNode := by
  funext other
  simp only [FSVolume.next]
  by_cases h : other = address
  · rw [h, setNode_same, Function.update_self]
  · rw [setNode_ne _ _ h, Function.update_of_ne h]
    rfl

/-! ## Section 2: Reading -/

/-- `FSCPIORead` -/
def fsCPIORead (node : FSVNode) (m : Memory) (offset size buffer : Nat) : Nat × Memory :=
  if node.dataLength < offset then (0, m)
  else
    let size := if node.dataLength < (offset + size) % 2 ^ 64 then node.dataLength - offset else size
    (size, memoryCopy m buffer (node.implementationData + offset) size)

/-- `FSVNodeRead` -/
def fsVNodeRead (volume : FSVolume) (m : Memory) (node offset size buffer : Nat) : Nat × Memory :=
  if node = 0 then (0, m)
  else
    match (volume.node node).operations with
    | none => (0, m)
    | some operations =>
      match operations.readFunction with
      | none => (0, m)
      | some .fsCPIORead => fsCPIORead (volume.node node) m offset size buffer

/-! ## Section 3: Paths -/

/-- The loop of `FSVirtualFileSystemOpenPath`. `none` means that the list of
nodes is longer than the fuel. -/
def openPathLoop (volume : FSVolume) (searchName : List UInt8) : Nat → Nat → Option Nat
  | 0, _ => none
  | fuel + 1, nodeIterator =>
    if nodeIterator = 0 then some 0
    else if stringCompare (volume.node nodeIterator).name searchName = 0 then
      -- `open` is called if there is one; no file system here has it
      match (volume.node nodeIterator).operations.bind FSVNodeOperations.openFunction with
      | some function => nomatch function
      | none => some nodeIterator
    -- names are compared whole: a path is one name, slashes included
    else openPathLoop volume searchName fuel (volume.node nodeIterator).nextNode

/-- `FSVirtualFileSystemOpenPath`; the path is followed by a NUL. -/
def fsVirtualFileSystemOpenPath (volume : FSVolume) (gFSVirtualFileSystemRoot : Nat)
    (path : List UInt8) (fuel : Nat) : Option Nat :=
  if gFSVirtualFileSystemRoot = 0 then some 0
  else if stringCompare (Memory.zeroPadded path) ['/'.toUInt8] = 0 then
    some gFSVirtualFileSystemRoot
  else
    -- one leading slash is dropped
    let searchName := if path.head? = some '/'.toUInt8 then path.tail else path
    openPathLoop volume searchName fuel (volume.node gFSVirtualFileSystemRoot).childNode

theorem openPathLoop_hit {volume : FSVolume} {searchName : List UInt8} {nodeIterator : Nat}
    (fuel : Nat) (hnode : nodeIterator ≠ 0)
    (heq : stringCompare (volume.node nodeIterator).name searchName = 0) :
    openPathLoop volume searchName (fuel + 1) nodeIterator = some nodeIterator := by
  rw [openPathLoop, if_neg hnode, if_pos heq]
  split
  · rename_i function _
    exact nomatch function
  · rfl

theorem openPathLoop_miss {volume : FSVolume} {searchName : List UInt8} {nodeIterator : Nat}
    (fuel : Nat) (hnode : nodeIterator ≠ 0)
    (hne : stringCompare (volume.node nodeIterator).name searchName ≠ 0) :
    openPathLoop volume searchName (fuel + 1) nodeIterator =
      openPathLoop volume searchName fuel (volume.node nodeIterator).nextNode := by
  rw [openPathLoop, if_neg hnode, if_neg hne]

/-- The loop stops at the first node of the list that has the name. -/
theorem openPathLoop_of_links {volume : FSVolume} {searchName : List UInt8} {start node : Nat}
    {before after : List Nat} {fuel : Nat}
    (hlinks : Links volume.next start (before ++ node :: after) 0) (hzero : 0 ∉ before ++ [node])
    (hbefore : ∀ other ∈ before, stringCompare (volume.node other).name searchName ≠ 0)
    (hnode : stringCompare (volume.node node).name searchName = 0) (hfuel : before.length < fuel) :
    openPathLoop volume searchName fuel start = some node := by
  induction before generalizing start fuel with
  | nil =>
    obtain ⟨fuel, rfl⟩ := Nat.exists_eq_succ_of_ne_zero (Nat.ne_of_gt hfuel)
    obtain ⟨rfl, -⟩ := hlinks
    rw [List.nil_append, List.mem_singleton] at hzero
    exact openPathLoop_hit fuel (Ne.symm hzero) hnode
  | cons first before ih =>
    obtain ⟨fuel, rfl⟩ := Nat.exists_eq_succ_of_ne_zero (Nat.ne_of_gt (Nat.zero_lt_of_lt hfuel))
    obtain ⟨rfl, hrest⟩ := hlinks
    rw [List.cons_append, List.mem_cons, not_or] at hzero
    rw [openPathLoop_miss fuel (Ne.symm hzero.1) (hbefore start (by simp))]
    exact ih hrest hzero.2 (fun other hother => hbefore other (by simp [hother]))
      (Nat.lt_of_succ_lt_succ hfuel)

/-- A path with a slash in front is searched without the slash. -/
theorem fsVirtualFileSystemOpenPath_slash {volume : FSVolume} {root : Nat} {name : List UInt8}
    (fuel : Nat) (hroot : root ≠ 0) (hname : name ≠ []) (hnul : 0 ∉ name) :
    fsVirtualFileSystemOpenPath volume root ('/'.toUInt8 :: name) fuel =
      openPathLoop volume name fuel (volume.node root).childNode := by
  have hslash : stringCompare (Memory.zeroPadded ('/'.toUInt8 :: name)) ['/'.toUInt8] ≠ 0 := by
    rw [Ne, stringCompare_eq_zero_iff (cString_zeroPadded ?_) (by decide)]
    · simpa using hname
    · rw [List.mem_cons, not_or]
      exact ⟨by decide, hnul⟩
  rw [fsVirtualFileSystemOpenPath, if_neg hroot, if_neg hslash]
  rfl

end TermOS.FS
