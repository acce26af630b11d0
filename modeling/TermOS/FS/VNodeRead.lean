import TermOS.FS.CPIO

/-!
# Reading a file

`FSVNodeRead` on the nodes that `FSCPIOMount` makes. The bytes of a file are part
of the archive, so a read has to end where the file ends. `FSCPIORead` finds the
end from `offset + size`, which wraps.
-/

namespace TermOS.FS

open TermOS.Lib TermOS.Kernel

/-! ## Section 1: The reads -/

/-- The addresses of file content that `FSCPIORead` reads. -/
def fsCPIOReadReads (node : FSVNode) (offset size : Nat) : List Nat :=
  if node.dataLength < offset then []
  else
    let size := if node.dataLength < (offset + size) % 2 ^ 64 then node.dataLength - offset else size
    memoryCopyReads (node.implementationData + offset) size

/-- The addresses of file content that `FSVNodeRead` reads. -/
def fsVNodeReadReads (volume : FSVolume) (node offset size : Nat) : List Nat :=
  if node = 0 then []
  else
    match (volume.node node).operations with
    | none => []
    | some operations =>
      match operations.readFunction with
      | none => []
      | some .fsCPIORead => fsCPIOReadReads (volume.node node) offset size

/-- How many bytes a read of `size` bytes at `offset` has to return. -/
def FSVNode.clampedSize (node : FSVNode) (offset size : Nat) : Nat :=
  if node.dataLength < offset then 0 else min size (node.dataLength - offset)

/-- A read returns what the file has there, leaves everything but the buffer as it
was, and looks at nothing but the file. -/
structure ReadsFile (volume : FSVolume) (m : Memory) (node offset size buffer : Nat) : Prop where
  result_eq : (fsVNodeRead volume m node offset size buffer).1 =
    (volume.node node).clampedSize offset size
  copied : ∀ i < (volume.node node).clampedSize offset size,
    (fsVNodeRead volume m node offset size buffer).2 (buffer + i) =
      m ((volume.node node).implementationData + (offset + i))
  outside : ∀ x, x < buffer ∨ buffer + (volume.node node).clampedSize offset size ≤ x →
    (fsVNodeRead volume m node offset size buffer).2 x = m x
  within : ∀ x ∈ fsVNodeReadReads volume node offset size,
    (volume.node node).implementationData ≤ x ∧
      x < (volume.node node).implementationData + (volume.node node).dataLength

/-! ## Section 2: The clamp -/

section Read

variable {volume : FSVolume} {m : Memory} {node offset size buffer : Nat}

theorem fsVNodeRead_cpio (hnode : node ≠ 0)
    (hcpio : (volume.node node).operations = some gFSCPIOOperations) (m : Memory)
    (offset size buffer : Nat) :
    fsVNodeRead volume m node offset size buffer =
      fsCPIORead (volume.node node) m offset size buffer := by
  rw [fsVNodeRead, if_neg hnode, hcpio]
  rfl

theorem fsVNodeReadReads_cpio (hnode : node ≠ 0)
    (hcpio : (volume.node node).operations = some gFSCPIOOperations) (offset size : Nat) :
    fsVNodeReadReads volume node offset size = fsCPIOReadReads (volume.node node) offset size := by
  rw [fsVNodeReadReads, if_neg hnode, hcpio]
  rfl

/-- While the sum does not wrap, the size that is copied is the clamped one. -/
theorem FSVNode.copied_eq {node : FSVNode} (hstart : ¬ node.dataLength < offset)
    (hsum : offset + size < 2 ^ 64) :
    (if node.dataLength < (offset + size) % 2 ^ 64 then node.dataLength - offset else size) =
      node.clampedSize offset size := by
  rw [Nat.mod_eq_of_lt hsum, FSVNode.clampedSize, if_neg hstart]
  split <;> omega

/-- When the sum wraps, it is below `offset` and clamps nothing. -/
theorem FSVNode.copied_of_wrap {node : FSVNode} (hstart : ¬ node.dataLength < offset)
    (hsize : size < 2 ^ 64) (hsum : 2 ^ 64 ≤ offset + size) (hoffset : offset < 2 ^ 64) :
    (if node.dataLength < (offset + size) % 2 ^ 64 then node.dataLength - offset else size) =
      size := by
  have hwrap : (offset + size) % 2 ^ 64 = offset + size - 2 ^ 64 := by
    rw [Nat.mod_eq_sub_mod hsum, Nat.mod_eq_of_lt (by omega)]
  rw [hwrap, if_neg (by omega)]

/-- A read behind the end of the file does nothing. -/
theorem readsFile_of_behind (hnode : node ≠ 0)
    (hcpio : (volume.node node).operations = some gFSCPIOOperations)
    (hstart : (volume.node node).dataLength < offset) :
    ReadsFile volume m node offset size buffer := by
  have hclamp : (volume.node node).clampedSize offset size = 0 := if_pos hstart
  have hread : fsVNodeRead volume m node offset size buffer = (0, m) := by
    rw [fsVNodeRead_cpio hnode hcpio, fsCPIORead, if_pos hstart]
  have hreads : fsVNodeReadReads volume node offset size = [] := by
    rw [fsVNodeReadReads_cpio hnode hcpio, fsCPIOReadReads, if_pos hstart]
  constructor
  · rw [hread, hclamp]
  · simp [hclamp]
  · intro x _
    rw [hread]
  · simp [hreads]

/-- A read that starts in the file and whose end does not wrap. -/
theorem readsFile_of_inside (hnode : node ≠ 0)
    (hcpio : (volume.node node).operations = some gFSCPIOOperations)
    (hbuffer : CopySafe buffer ((volume.node node).implementationData + offset)
      ((volume.node node).clampedSize offset size))
    (hstart : ¬ (volume.node node).dataLength < offset) (hsum : offset + size < 2 ^ 64) :
    ReadsFile volume m node offset size buffer := by
  have hcopied := FSVNode.copied_eq hstart hsum
  have hread : fsVNodeRead volume m node offset size buffer =
      ((volume.node node).clampedSize offset size,
        m.blit buffer ((volume.node node).clampedSize offset size)
          fun i => m ((volume.node node).implementationData + offset + i)) := by
    rw [fsVNodeRead_cpio hnode hcpio, fsCPIORead, if_neg hstart, hcopied]
    exact congrArg _ (memoryCopy_eq_blit hbuffer)
  have hmemory : (fsVNodeRead volume m node offset size buffer).2 =
      m.blit buffer ((volume.node node).clampedSize offset size)
        fun i => m ((volume.node node).implementationData + offset + i) :=
    congrArg Prod.snd hread
  have hreads : fsVNodeReadReads volume node offset size =
      List.range' ((volume.node node).implementationData + offset)
        ((volume.node node).clampedSize offset size) := by
    rw [fsVNodeReadReads_cpio hnode hcpio, fsCPIOReadReads, if_neg hstart, hcopied]
    exact memoryCopyReads_eq _ _
  -- what is left of the file behind the offset
  have hclamp : (volume.node node).clampedSize offset size ≤
      (volume.node node).dataLength - offset := by
    rw [FSVNode.clampedSize, if_neg hstart]
    exact Nat.min_le_right _ _
  constructor
  · rw [hread]
  · intro i hi
    rw [hmemory, Memory.blit_inside _ _ (by omega) (by omega), Nat.add_sub_cancel_left, Nat.add_assoc]
  · intro x hx
    rw [hmemory, Memory.blit_outside _ _ hx]
  · intro x hx
    rw [hreads, List.mem_range'_1] at hx
    omega

/-- `FSVNodeRead` clamps to the file, unless it starts in the file and the sum of
`offset` and `size` wraps: then it copies all of `size`. The buffer is memory of
the caller's own, or at least not the part of the file behind the bytes read. -/
theorem fsVNodeRead_readsFile_iff (hnode : node ≠ 0)
    (hcpio : (volume.node node).operations = some gFSCPIOOperations)
    (hlength : (volume.node node).dataLength < 2 ^ 64) (hoffset : offset < 2 ^ 64)
    (hsize : size < 2 ^ 64)
    (hbuffer : CopySafe buffer ((volume.node node).implementationData + offset)
      ((volume.node node).clampedSize offset size)) :
    ReadsFile volume m node offset size buffer ↔
      (volume.node node).dataLength < offset ∨ offset + size < 2 ^ 64 := by
  by_cases hstart : (volume.node node).dataLength < offset
  · exact iff_of_true (readsFile_of_behind hnode hcpio hstart) (Or.inl hstart)
  by_cases hsum : offset + size < 2 ^ 64
  · exact iff_of_true (readsFile_of_inside hnode hcpio hbuffer hstart hsum) (Or.inr hsum)
  refine iff_of_false ?_ (not_or.mpr ⟨hstart, hsum⟩)
  intro hfile
  have hresult := hfile.result_eq
  -- the code returns `size`, and the file ends before that
  rw [fsVNodeRead_cpio hnode hcpio, fsCPIORead, if_neg hstart, FSVNode.clampedSize,
    if_neg hstart] at hresult
  have hcopied := FSVNode.copied_of_wrap hstart hsize (Nat.not_lt.mp hsum) hoffset
  replace hresult := hcopied.symm.trans hresult
  omega

/-- A file of four bytes at address 100, as the mount makes its node. -/
def fourByteVolume : FSVolume where
  node := fun _ => { FSVNode.zero with
    dataLength := 4
    implementationData := 100
    operations := some gFSCPIOOperations }
  allocated := 1

theorem fsVNodeRead_readsFile_fourByteVolume :
    ReadsFile fourByteVolume (fun _ => 0) 1 1 (2 ^ 64 - 2) 4096 ↔
      4 < 1 ∨ 1 + (2 ^ 64 - 2) < 2 ^ 64 :=
  fsVNodeRead_readsFile_iff (by decide) rfl (by decide) (by decide) (by decide) (Or.inr (by decide))

/-- One byte more, and the read returns 18446744073709551615 from a file of four bytes. -/
theorem fsVNodeRead_fourByteVolume_wraps :
    ¬ ReadsFile fourByteVolume (fun _ => 0) 1 1 (2 ^ 64 - 1) 4096 := by
  intro hfile
  have hresult : 2 ^ 64 - 1 = 3 := hfile.result_eq
  exact absurd hresult (by decide)

end Read

end TermOS.FS
