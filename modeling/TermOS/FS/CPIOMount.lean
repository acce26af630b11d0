import TermOS.FS.Newc
import TermOS.Lib.Links
import Mathlib.Data.List.Forall2

/-!
# Mounting a newc archive

`FSCPIOMount` inverts the newc encoding: the nodes that it links below the root
are those of the entries, in their order, and a path finds the first entry of
its name, whose content reads back byte for byte.
-/

namespace TermOS.FS

open TermOS.Lib TermOS.Kernel

/-- The first `count` calls of `VMHeapAllocate` return different nodes, none of
them null. -/
def AllocationsSucceed (vmHeapAllocate : Nat → Nat) (count : Nat) : Prop :=
  (∀ i < count, vmHeapAllocate i ≠ 0) ∧
    ∀ i < count, ∀ j < i, vmHeapAllocate j ≠ vmHeapAllocate i

/-- The results of the calls 1, 2, .., `count`. -/
def allocatedNodes (vmHeapAllocate : Nat → Nat) (count : Nat) : List Nat :=
  (List.range count).map fun i => vmHeapAllocate (i + 1)

theorem allocatedNodes_succ (vmHeapAllocate : Nat → Nat) (count : Nat) :
    allocatedNodes vmHeapAllocate (count + 1) =
      allocatedNodes vmHeapAllocate count ++ [vmHeapAllocate (count + 1)] := by
  simp [allocatedNodes, List.range_succ]

theorem AllocationsSucceed.nodup {vmHeapAllocate : Nat → Nat} {count k : Nat}
    (h : AllocationsSucceed vmHeapAllocate count) (hk : k < count) :
    (allocatedNodes vmHeapAllocate k).Nodup := by
  induction k with
  | zero => exact List.nodup_nil
  | succ k ih =>
    rw [allocatedNodes_succ, List.nodup_append_comm, List.singleton_append, List.nodup_cons]
    refine ⟨fun hmem => ?_, ih (Nat.lt_of_succ_lt hk)⟩
    obtain ⟨i, hi, heq⟩ := List.mem_map.mp hmem
    rw [List.mem_range] at hi
    exact h.2 (k + 1) hk (i + 1) (by omega) heq

theorem AllocationsSucceed.root_notMem {vmHeapAllocate : Nat → Nat} {count k : Nat}
    (h : AllocationsSucceed vmHeapAllocate count) (hk : k < count) :
    vmHeapAllocate 0 ∉ allocatedNodes vmHeapAllocate k := by
  intro hmem
  obtain ⟨i, hi, heq⟩ := List.mem_map.mp hmem
  rw [List.mem_range] at hi
  exact h.2 (i + 1) (by omega) 0 (by omega) heq.symm

theorem AllocationsSucceed.ne_zero_of_mem {vmHeapAllocate : Nat → Nat} {count k node : Nat}
    (h : AllocationsSucceed vmHeapAllocate count) (hk : k < count)
    (hmem : node ∈ allocatedNodes vmHeapAllocate k) : node ≠ 0 := by
  obtain ⟨i, hi, rfl⟩ := List.mem_map.mp hmem
  rw [List.mem_range] at hi
  exact h.1 (i + 1) (by omega)

/-! ## Section 1: Linking one node -/

/-- A node without its links. -/
def FSVNode.unlinked (node : FSVNode) : FSVNode := { node with childNode := 0, nextNode := 0 }

/-- Linking changes nothing but links. -/
theorem FSVolume.linkNode_unlinked (volume : FSVolume) (rootNode tailNode newNode other : Nat) :
    ((volume.linkNode rootNode tailNode newNode).node other).unlinked =
      (volume.node other).unlinked := by
  rw [linkNode]
  split
  · by_cases h : other = rootNode
    · rw [h, setNode_same]
      rfl
    · rw [setNode_ne _ _ h]
  split
  · by_cases h : other = tailNode
    · rw [h, setNode_same]
      rfl
    · rw [setNode_ne _ _ h]
  · rfl

@[simp] theorem FSVolume.linkNode_allocated (volume : FSVolume) (rootNode tailNode newNode : Nat) :
    (volume.linkNode rootNode tailNode newNode).allocated = volume.allocated := by
  rw [linkNode]
  split
  · rfl
  split
  · rfl
  · rfl

theorem NewcEntry.Describes.of_unlinked {m : Memory} {node node' : FSVNode} {e : NewcEntry}
    (h : Describes m node e) (heq : node'.unlinked = node.unlinked) : Describes m node' e := by
  simp only [FSVNode.unlinked, FSVNode.mk.injEq, and_true] at heq
  obtain ⟨hname, hflags, hinode, hlength, hoperations, hdata⟩ := heq
  constructor
  · rw [hname]
    exact h.name
  · rw [hlength]
    exact h.dataLength
  · rw [hinode]
    exact h.inodeIdentifier
  · rw [hflags]
    exact h.flags
  · rw [hoperations]
    exact h.operations
  · rw [hdata]
    exact h.content

/-- The new node becomes the last child of the root. -/
theorem FSVolume.links_linkNode {volume : FSVolume} {rootNode newNode : Nat} {nodes : List Nat}
    (hlinks : Links volume.next (volume.node rootNode).childNode nodes 0)
    (hnodes : (nodes ++ [newNode]).Nodup) (hzero : 0 ∉ nodes) (hroot : rootNode ∉ nodes ++ [newNode])
    (hnew : (volume.node newNode).nextNode = 0) :
    Links (volume.linkNode rootNode (nodes.getLast?.getD 0) newNode).next
      ((volume.linkNode rootNode (nodes.getLast?.getD 0) newNode).node rootNode).childNode
      (nodes ++ [newNode]) 0 := by
  rw [List.mem_append, List.mem_singleton, not_or] at hroot
  rw [List.nodup_append_comm, List.singleton_append, List.nodup_cons] at hnodes
  rcases List.eq_nil_or_concat nodes with rfl | ⟨init, last, rfl⟩
  · -- the first node hangs on the root
    have hchild : (volume.node rootNode).childNode = 0 := hlinks
    rw [linkNode, if_pos hchild, setNode_same, next_setNode]
    refine ⟨rfl, ?_⟩
    rw [Links.nil_iff, Function.update_of_ne (Ne.symm hroot.2)]
    exact hnew
  · -- a later one hangs on the last node
    rw [List.concat_eq_append] at *
    have hlast : last ≠ 0 := by
      rintro rfl
      simp at hzero
    have hchild : (volume.node rootNode).childNode ≠ 0 := by
      intro heq
      rw [heq] at hlinks
      cases init with
      | nil => exact hlast hlinks.1.symm
      | cons first rest => exact hzero (by simp [← hlinks.1])
    have hne : rootNode ≠ last := by
      rintro rfl
      simp at hroot
    have hinit : last ∉ init := by
      rw [List.nodup_append_comm, List.singleton_append, List.nodup_cons] at hnodes
      exact hnodes.2.1
    rw [List.getLast?_concat, Option.getD_some, linkNode, if_neg hchild, if_pos hlast, setNode_ne _ _ hne,
      next_setNode, Links.concat_iff]
    refine ⟨hlinks.update_last hinit newNode, ?_⟩
    rw [Function.update_of_ne (fun heq => hnodes.1 (by simp [heq]))]
    exact hnew

/-! ## Section 2: The mount loop -/

section Mount

variable {vmHeapAllocate : Nat → Nat} {m : Memory} {base : Nat} {bytes : List UInt8}

/-- A node describes an entry for as long as the archive stays where it is, and
its content lies inside the archive. -/
structure Stored (base : Nat) (bytes : List UInt8) (node : FSVNode) (e : NewcEntry) : Prop where
  describes : ∀ later : Memory, later.Holds base bytes → NewcEntry.Describes later node e
  above : base ≤ node.implementationData
  below : node.implementationData + e.content.length ≤ base + bytes.length

theorem Stored.of_unlinked {node node' : FSVNode} {e : NewcEntry} (h : Stored base bytes node e)
    (heq : node'.unlinked = node.unlinked) : Stored base bytes node' e := by
  have hdata : node'.implementationData = node.implementationData :=
    (FSVNode.mk.inj heq).2.2.2.2.2.1
  refine ⟨fun later hlater => (h.describes later hlater).of_unlinked heq, ?_, ?_⟩
  · rw [hdata]
    exact h.above
  · rw [hdata]
    exact h.below

/-- The volume after the mount loop has passed `entries`. -/
structure Mounted (vmHeapAllocate : Nat → Nat) (base : Nat) (bytes : List UInt8)
    (volume : FSVolume) (entries : List NewcEntry) (tailNode : Nat) : Prop where
  allocated : volume.allocated = entries.length + 1
  links : Links volume.next (volume.node (vmHeapAllocate 0)).childNode
    (allocatedNodes vmHeapAllocate entries.length) 0
  stored : List.Forall₂ (fun node e => Stored base bytes (volume.node node) e)
    (allocatedNodes vmHeapAllocate entries.length) entries
  tail : tailNode = (allocatedNodes vmHeapAllocate entries.length).getLast?.getD 0

/-- The nodes that the loop has linked so far stand in the relation `R` to
`items`, one by one. -/
structure NodesLinked {α : Type} (vmHeapAllocate : Nat → Nat) (R : FSVNode → α → Prop)
    (volume : FSVolume) (items : List α) (tailNode : Nat) : Prop where
  allocated : volume.allocated = items.length + 1
  links : Links volume.next (volume.node (vmHeapAllocate 0)).childNode
    (allocatedNodes vmHeapAllocate items.length) 0
  related : List.Forall₂ (fun node x => R (volume.node node) x)
    (allocatedNodes vmHeapAllocate items.length) items
  tail : tailNode = (allocatedNodes vmHeapAllocate items.length).getLast?.getD 0

/-- One turn of the loop links the node of the next entry. -/
theorem NodesLinked.turn {α : Type} {R : FSVNode → α → Prop}
    (hR : ∀ node node' x, R node x → node'.unlinked = node.unlinked → R node' x)
    {volume : FSVolume} {items : List α} {tailNode count p : Nat} {x : α}
    (h : NodesLinked vmHeapAllocate R volume items tailNode)
    (hallocate : AllocationsSucceed vmHeapAllocate count) (hcount : items.length + 1 < count)
    (hnode : R (cpioNode m p) x) :
    ∃ newNode allocated, volume.allocateNode vmHeapAllocate = some (newNode, allocated) ∧
      NodesLinked vmHeapAllocate R
        ((allocated.setNode newNode (cpioNode m p)).linkNode (vmHeapAllocate 0) tailNode newNode)
        (items ++ [x]) newNode := by
  have hgrown : allocatedNodes vmHeapAllocate (items ++ [x]).length =
      allocatedNodes vmHeapAllocate items.length ++ [vmHeapAllocate (items.length + 1)] := by
    rw [List.length_append, List.length_singleton, allocatedNodes_succ]
  have hnodup := hallocate.nodup hcount
  have hroot := hallocate.root_notMem hcount
  rw [allocatedNodes_succ] at hnodup hroot
  generalize hnodes : allocatedNodes vmHeapAllocate items.length = nodes at *
  generalize hnewNode : vmHeapAllocate (items.length + 1) = newNode at *
  have hzero : 0 ∉ nodes := by
    intro hmem
    rw [← hnodes] at hmem
    exact hallocate.ne_zero_of_mem (Nat.lt_of_succ_lt hcount) hmem rfl
  have hnotMem : newNode ∉ nodes := by
    rw [List.nodup_append_comm, List.singleton_append, List.nodup_cons] at hnodup
    exact hnodup.1
  have hne : vmHeapAllocate 0 ≠ newNode := by
    intro heq
    exact hroot (by simp [heq])
  refine ⟨newNode, { volume.setNode newNode .zero with allocated := volume.allocated + 1 }, ?_, ?_⟩
  · rw [FSVolume.allocateNode, h.allocated, hnewNode, if_neg]
    rw [← hnewNode]
    exact hallocate.1 _ hcount
  -- the volume in which the new node is filled in and not yet linked
  generalize hfilled : FSVolume.setNode
    { volume.setNode newNode .zero with allocated := volume.allocated + 1 } newNode
    (cpioNode m p) = filled
  have hsame : filled.node newNode = cpioNode m p := by
    rw [← hfilled, FSVolume.setNode_same]
  have hother : ∀ node, node ≠ newNode → filled.node node = volume.node node := by
    intro node hnode
    rw [← hfilled, FSVolume.setNode_ne _ _ hnode]
    exact FSVolume.setNode_ne _ _ hnode
  have htail := h.tail
  have hlinks := h.links
  rw [hnodes] at htail hlinks
  refine ⟨?_, ?_, ?_, ?_⟩
  · rw [FSVolume.linkNode_allocated, ← hfilled, FSVolume.setNode_allocated, List.length_append,
      List.length_singleton, h.allocated]
  · rw [hgrown, htail]
    apply FSVolume.links_linkNode ?_ hnodup hzero hroot
    · rw [hsame]
      rfl
    · rw [hother _ hne]
      apply hlinks.congr
      intro node hmem
      rw [FSVolume.next, hother node (fun heq => hnotMem (heq ▸ hmem)), FSVolume.next]
  · rw [hgrown]
    have hdone := h.related
    rw [hnodes, List.forall₂_iff_zip] at hdone
    apply List.rel_append
    · rw [List.forall₂_iff_zip]
      refine ⟨hdone.1, fun {node y} hmem => ?_⟩
      apply hR _ _ _ (hdone.2 hmem)
      rw [FSVolume.linkNode_unlinked,
        hother node (fun heq => hnotMem (heq ▸ (List.of_mem_zip hmem).1))]
    · refine .cons ?_ .nil
      apply hR _ _ _ hnode
      rw [FSVolume.linkNode_unlinked, hsame]
  · rw [hgrown, List.getLast?_concat, Option.getD_some]

/-- The same for a well-formed archive. -/
theorem Mounted.turn {volume : FSVolume} {entries : List NewcEntry} {tailNode count p : Nat}
    {e : NewcEntry} (h : Mounted vmHeapAllocate base bytes volume entries tailNode)
    (hallocate : AllocationsSucceed vmHeapAllocate count) (hcount : entries.length + 1 < count)
    (hnode : Stored base bytes (cpioNode m p) e) :
    ∃ newNode allocated, volume.allocateNode vmHeapAllocate = some (newNode, allocated) ∧
      Mounted vmHeapAllocate base bytes
        ((allocated.setNode newNode (cpioNode m p)).linkNode (vmHeapAllocate 0) tailNode newNode)
        (entries ++ [e]) newNode := by
  have hlinked : NodesLinked vmHeapAllocate (Stored base bytes) volume entries tailNode :=
    ⟨h.allocated, h.links, h.stored, h.tail⟩
  obtain ⟨newNode, allocated, hnew, hturn⟩ := 
    hlinked.turn (R := Stored base bytes) (fun _ _ _ => Stored.of_unlinked) hallocate hcount hnode
  exact ⟨newNode, allocated, hnew, hturn.allocated, hturn.links, hturn.related, hturn.tail⟩

/-- The bytes of an archive: the entries, the trailer, and what the archiver
puts behind it. -/
def newcArchive (entries : List NewcEntry) (trailer : NewcEntry) (rest : List UInt8) : List UInt8 :=
  entries.flatMap NewcEntry.encode ++ (trailer.encode ++ rest)

/-- The loop passes the entries that are left and stops at the trailer. -/
theorem Mounted.run {before after : List NewcEntry} {trailer : NewcEntry} {rest : List UInt8}
    {volume : FSVolume} {tailNode count p fuel : Nat}
    (h : Mounted vmHeapAllocate base bytes volume before tailNode)
    (hallocate : AllocationsSucceed vmHeapAllocate count)
    (hcount : before.length + after.length < count) (hvalid : ∀ e ∈ after, e.Valid)
    (htrailer : trailer.name = trailerName)
    (hbytes : ∀ later : Memory, later.Holds base bytes → later.Holds p (newcArchive after trailer rest))
    (hm : m.Holds base bytes) (hp : base ≤ p)
    (hsame : p + (newcArchive after trailer rest).length = base + bytes.length)
    (hend : base + bytes.length < 2 ^ 64)
    (hfuel : after.length < fuel) :
    ∃ final tail, fsCPIOMountLoop vmHeapAllocate m (base + bytes.length) (vmHeapAllocate 0) fuel
        volume p tailNode = some (.ok final) ∧
      Mounted vmHeapAllocate base bytes final (before ++ after) tail := by
  -- Induction on the entries that the loop has not reached; `Mounted` carries those behind it.
  induction after generalizing before volume tailNode p fuel with
  | nil =>
    obtain ⟨fuel, rfl⟩ := Nat.exists_eq_succ_of_ne_zero (Nat.ne_of_gt hfuel)
    have harchive : newcArchive [] trailer rest = trailer.encode ++ rest := rfl
    rw [harchive] at hbytes hsame
    have hat : NewcEntry.At m p trailer := by
      apply NewcEntry.at_of_holds
      exact (Memory.Holds.append_iff.mp (hbytes m hm)).1
    -- The trailer ends the loop by its name alone, so its name must survive as a C string.
    have hnul : 0 ∉ trailer.name := by
      rw [htrailer]
      decide
    have hlt : p < base + bytes.length := by
      rw [← hsame, List.length_append, trailer.length_encode, NewcEntry.contentOffset]
      omega
    refine ⟨volume, tailNode, ?_, by rwa [List.append_nil]⟩
    rw [fsCPIOMountLoop, if_neg (not_not.mpr hlt), if_neg (not_not.mpr hat.magic_eq),
      if_pos ((hat.trailer_iff hnul).mpr htrailer)]
  | cons e after ih =>
    obtain ⟨fuel, rfl⟩ := Nat.exists_eq_succ_of_ne_zero (Nat.ne_of_gt (Nat.zero_lt_of_lt hfuel))
    rw [List.length_cons] at hcount hfuel
    have hv := hvalid e (by simp)
    have harchive : newcArchive (e :: after) trailer rest =
        e.encode ++ newcArchive after trailer rest := by
      simp only [newcArchive, List.flatMap_cons, List.append_assoc]
    rw [harchive] at hbytes hsame
    rw [List.length_append] at hsame
    -- The turn allocates a node, so the header is read in any memory that still holds the archive.
    have hat : ∀ later : Memory, later.Holds base bytes → NewcEntry.At later p e :=
      fun later hlater =>
        NewcEntry.at_of_holds (Memory.Holds.append_iff.mp (hbytes later hlater)).1
    have hlength := e.length_encode
    have hoffset : 110 < e.contentOffset := by
      rw [NewcEntry.contentOffset]
      omega
    have hdata : (cpioNode m p).implementationData = p + e.contentOffset :=
      (hat m hm).implementationData_eq hv (by omega)
    obtain ⟨newNode, allocated, hnew, hmounted⟩ := h.turn hallocate (by omega)
      -- What is stored describes the entry in every later memory as well.
      ⟨fun later hlater => (hat m hm).describes (hat later hlater) hv (by omega),
        by rw [hdata]; omega, by rw [hdata]; omega⟩
    have hat := hat m hm
    obtain ⟨final, tail, hloop, hfinal⟩ := ih hmounted
      (by rw [List.length_append, List.length_singleton]; omega)
      (fun e' he' => hvalid e' (by simp [he']))
      (fun later hlater => (Memory.Holds.append_iff.mp (hbytes later hlater)).2)
      (by omega) (by omega) (Nat.lt_of_succ_lt_succ hfuel)
    refine ⟨final, tail, ?_, by rwa [List.append_assoc] at hfinal⟩
    rw [fsCPIOMountLoop, if_neg (not_not.mpr (by omega)), if_neg (not_not.mpr hat.magic_eq),
      if_neg (fun heq => hv.name_ne_trailer ((hat.trailer_iff hv.nul_notMem).mp heq)), hnew]
    simp only
    rw [hat.advance_eq hv (by omega)]
    exact hloop

/-! ## Section 3: The mounted volume -/

/-- Mounting an archive. -/
theorem fsCPIOMount_mounted {entries : List NewcEntry} {trailer : NewcEntry} {rest : List UInt8}
    {fuel : Nat} (hvalid : ∀ e ∈ entries, e.Valid) (htrailer : trailer.name = trailerName)
    (hm : m.Holds base (newcArchive entries trailer rest))
    (hend : base + (newcArchive entries trailer rest).length < 2 ^ 64)
    (hallocate : AllocationsSucceed vmHeapAllocate (entries.length + 1))
    (hfuel : entries.length < fuel) :
    ∃ volume tail, fsCPIOMount vmHeapAllocate m base (newcArchive entries trailer rest).length fuel =
        some (.ok (vmHeapAllocate 0, volume)) ∧
      Mounted vmHeapAllocate base (newcArchive entries trailer rest) volume entries tail := by
  have hroot := hallocate.1 0 (by omega)
  rw [fsCPIOMount, FSVolume.allocateNode, if_neg hroot]
  simp only
  generalize hstart : FSVolume.setNode _ (vmHeapAllocate 0) _ = start
  have hmounted : Mounted vmHeapAllocate base (newcArchive entries trailer rest) start [] 0 := by
    rw [← hstart]
    refine ⟨rfl, ?_, .nil, rfl⟩
    rw [FSVolume.setNode_same]
    rfl
  obtain ⟨final, tail, hloop, hfinal⟩ := hmounted.run hallocate (by simp) hvalid htrailer
    (fun later hlater => hlater) hm (Nat.le_refl _) rfl hend hfuel
  refine ⟨final, tail, ?_, hfinal⟩
  rw [Nat.mod_eq_of_lt hend, hloop]
  rfl

/-- A node that describes an entry gives back its content. -/
theorem NewcEntry.Describes.read {volume : FSVolume} {node buffer : Nat} {e : NewcEntry}
    (h : Describes m (volume.node node) e) (hnode : node ≠ 0) (hlength : e.content.length < 2 ^ 32)
    (hcopy : CopySafe buffer (volume.node node).implementationData e.content.length) :
    fsVNodeRead volume m node 0 (volume.node node).dataLength buffer =
      (e.content.length, m.blit buffer e.content.length (Memory.zeroPadded e.content)) := by
  have hsize : (0 + e.content.length) % 2 ^ 64 = e.content.length := by
    rw [Nat.zero_add, Nat.mod_eq_of_lt (Nat.lt_trans hlength (by decide))]
  rw [fsVNodeRead, if_neg hnode, h.operations]
  simp only [gFSCPIOOperations, fsCPIORead]
  rw [h.dataLength, if_neg (Nat.not_lt_zero _), hsize, if_neg (Nat.lt_irrefl _), Nat.add_zero,
    memoryCopy_eq_blit hcopy]
  congr 1
  apply Memory.blit_congr
  intro i hi
  rw [Memory.zeroPadded, List.getElem?_eq_getElem hi, Option.getD_some]
  exact h.content i _ (List.getElem?_eq_getElem hi)

/-- Every name has a first entry. -/
theorem exists_first_entry {entries : List NewcEntry} {e : NewcEntry} (he : e ∈ entries) :
    ∃ before first after, entries = before ++ first :: after ∧ first.name = e.name ∧
      ∀ other ∈ before, other.name ≠ e.name := by
  have hsome : (entries.find? fun other => other.name = e.name).isSome := by
    rw [List.find?_isSome]
    exact ⟨e, he, by simp⟩
  obtain ⟨first, hfirst⟩ := Option.isSome_iff_exists.mp hsome
  obtain ⟨hname, before, after, hsplit, hbefore⟩ := List.find?_eq_some_iff_append.mp hfirst
  exact ⟨before, first, after, hsplit, by simpa using hname, fun other hother => by
    simpa using hbefore other hother⟩

/-- The path of a name opens the node of the first entry of that name. -/
theorem Mounted.openPath {volume : FSVolume} {entries before after : List NewcEntry}
    {first : NewcEntry} {tailNode pathFuel : Nat}
    (h : Mounted vmHeapAllocate base bytes volume entries tailNode)
    (hm : m.Holds base bytes)
    (hallocate : AllocationsSucceed vmHeapAllocate (entries.length + 1))
    (hvalid : ∀ e ∈ entries, e.Valid) (hentries : entries = before ++ first :: after)
    (hbefore : ∀ other ∈ before, other.name ≠ first.name) (hfuel : entries.length < pathFuel) :
    ∃ node, (allocatedNodes vmHeapAllocate entries.length)[before.length]? = some node ∧ node ≠ 0 ∧
      Stored base bytes (volume.node node) first ∧
      fsVirtualFileSystemOpenPath volume (vmHeapAllocate 0) ('/'.toUInt8 :: first.name) pathFuel =
        some node := by
  have hfirst : first.Valid := hvalid first (by simp [hentries])
  have hstored := h.stored
  have hlinks := h.links
  have hzero : ∀ node ∈ allocatedNodes vmHeapAllocate entries.length, node ≠ 0 :=
    fun node hmem => hallocate.ne_zero_of_mem (Nat.lt_succ_self _) hmem
  generalize allocatedNodes vmHeapAllocate entries.length = nodes at *
  rw [hentries] at hstored
  have hfront := List.forall₂_take_append _ _ _ hstored
  have hback := List.forall₂_drop_append _ _ _ hstored
  obtain ⟨node, rest, hnode, -, hdrop⟩ := List.forall₂_cons_right_iff.mp hback
  have hsplit : nodes = nodes.take before.length ++ node :: rest := by
    rw [← hdrop, List.take_append_drop]
  have hlength := hfront.length_eq
  generalize nodes.take before.length = front at *
  have hmem : node ∈ nodes := by
    rw [hsplit]
    simp
  have hget : nodes[before.length]? = some node := by
    rw [hsplit, ← hlength, List.getElem?_append_right (Nat.le_refl _), Nat.sub_self]
    rfl
  refine ⟨node, hget, hzero node hmem, hnode, ?_⟩
  rw [fsVirtualFileSystemOpenPath_slash pathFuel (hallocate.1 0 (by omega)) hfirst.name_ne_nil
    hfirst.nul_notMem]
  rw [hsplit] at hlinks
  -- the loop passes the nodes in front, whose names differ, and stops at this one
  apply openPathLoop_of_links hlinks
  · intro hin
    apply hzero 0 ?_ rfl
    rw [hsplit]
    simp only [List.mem_append, List.mem_cons, List.not_mem_nil, or_false] at hin ⊢
    tauto
  -- an entry in front of the first one has another name
  · intro other hother
    obtain ⟨e, hin⟩ : ∃ e, (other, e) ∈ front.zip before := by
      obtain ⟨i, hi, rfl⟩ := List.mem_iff_getElem.mp hother
      exact ⟨before[i], List.mem_iff_getElem.mpr ⟨i, by simp; omega, by simp⟩⟩
    have hname := ((List.forall₂_zip hfront hin).describes m hm).name
    rw [Ne, stringCompare_eq_zero_iff hname hfirst.nul_notMem]
    exact hbefore e (List.of_mem_zip hin).2
  · rw [stringCompare_eq_zero_iff (hnode.describes m hm).name hfirst.nul_notMem]
  · rw [hlength]
    rw [hentries, List.length_append] at hfuel
    omega

end Mount

/-- Mounting inverts the newc encoding. The children of the root are the
entries in their order, and for every entry, a slash and its name open the
first entry of that name, which reads back as its content. -/
theorem fsCPIOMount_newc {vmHeapAllocate : Nat → Nat} {m : Memory} {base : Nat}
    {entries : List NewcEntry} {trailer : NewcEntry} {rest : List UInt8} {fuel : Nat}
    (hvalid : ∀ e ∈ entries, e.Valid) (htrailer : trailer.name = trailerName)
    (hm : m.Holds base (newcArchive entries trailer rest))
    (hend : base + (newcArchive entries trailer rest).length < 2 ^ 64)
    (hallocate : AllocationsSucceed vmHeapAllocate (entries.length + 1))
    (hfuel : entries.length < fuel) :
    ∃ root volume nodes,
      fsCPIOMount vmHeapAllocate m base (newcArchive entries trailer rest).length fuel =
        some (.ok (root, volume)) ∧
      Links volume.next (volume.node root).childNode nodes 0 ∧
      List.Forall₂ (fun node e => NewcEntry.Describes m (volume.node node) e) nodes entries ∧
      ∀ e ∈ entries, ∃ before first after, entries = before ++ first :: after ∧
        first.name = e.name ∧ (∀ other ∈ before, other.name ≠ e.name) ∧
        ∃ node, nodes[before.length]? = some node ∧
          (∀ pathFuel, entries.length < pathFuel →
            fsVirtualFileSystemOpenPath volume root ('/'.toUInt8 :: e.name) pathFuel = some node) ∧
          ∀ (later : Memory) (buffer : Nat), later.Holds base (newcArchive entries trailer rest) →
            (buffer + first.content.length ≤ base ∨
              base + (newcArchive entries trailer rest).length ≤ buffer) →
            fsVNodeRead volume later node 0 (volume.node node).dataLength buffer =
              (first.content.length,
                later.blit buffer first.content.length (Memory.zeroPadded first.content)) := by
  obtain ⟨volume, tail, hmount, hmounted⟩ :=
    fsCPIOMount_mounted hvalid htrailer hm hend hallocate hfuel
  refine ⟨vmHeapAllocate 0, volume, _, hmount, hmounted.links, ?_, ?_⟩
  · exact hmounted.stored.imp fun _ _ hstored => hstored.describes m hm
  intro e he
  obtain ⟨before, first, after, hsplit, hname, hbefore⟩ := exists_first_entry he
  have hbefore' : ∀ other ∈ before, other.name ≠ first.name := by
    rwa [hname]
  obtain ⟨node, hget, hnode, hstored, -⟩ :=
    hmounted.openPath hm hallocate hvalid hsplit hbefore' (Nat.lt_succ_self _)
  refine ⟨before, first, after, hsplit, hname, hbefore, node, hget, ?_, ?_⟩
  -- The node is the same whatever the fuel: it is the one behind `before`.
  · intro pathFuel hpathFuel
    obtain ⟨node', hget', -, -, hopen⟩ :=
      hmounted.openPath hm hallocate hvalid hsplit hbefore' hpathFuel
    rw [hget] at hget'
    rw [← hname, hopen, ← hget']
  · intro later buffer hlater hbuffer
    -- The buffer is outside the archive, so the read does not overwrite what it copies.
    have hlength := (hvalid first (by simp [hsplit])).length_content
    have habove := hstored.above
    have hbelow := hstored.below
    apply (hstored.describes later hlater).read hnode hlength
    rcases hbuffer with hlow | hhigh
    · exact .inl (by omega)
    · exact .inr (by omega)

/-- An entry with default values in the fields that the mount does not read. -/
def plainEntry (name content : List UInt8) (inode mode : UInt32) : NewcEntry where
  name := name
  content := content
  inode := inode
  mode := mode
  userIdentifier := 0
  groupIdentifier := 0
  linkCount := 1
  modificationTime := 0
  deviceMajor := 0
  deviceMinor := 0
  remoteDeviceMajor := 0
  remoteDeviceMinor := 0
  checkSum := 0
  upper := fun i => i % 2 = 0

/-- A directory `bin` and a file `sh` of five bytes. -/
def smallArchive : List NewcEntry :=
  [plainEntry (['b', 'i', 'n'].map Char.toUInt8) [] 0xABCD 0x41ED,
    plainEntry (['s', 'h'].map Char.toUInt8) [1, 2, 3, 4, 5] 7 0x81ED]

/-- The memory that has the small archive at 4096. -/
def smallArchiveMemory : Memory := fun address =>
  Memory.zeroPadded (newcArchive smallArchive (plainEntry trailerName [] 0 0) []) (address - 4096)

theorem fsCPIOMount_newc_small : ∃ root volume nodes,
    fsCPIOMount (fun n => 512 * (n + 1)) smallArchiveMemory 4096
      (newcArchive smallArchive (plainEntry trailerName [] 0 0) []).length 3 =
        some (.ok (root, volume)) ∧
    Links volume.next (volume.node root).childNode nodes 0 ∧
    List.Forall₂ (fun node e => NewcEntry.Describes smallArchiveMemory (volume.node node) e) nodes
      smallArchive := by
  have hvalid : ∀ e ∈ smallArchive, e.Valid := by
    intro e he
    simp only [smallArchive, List.mem_cons, List.not_mem_nil, or_false] at he
    rcases he with rfl | rfl
    · exact ⟨by decide, by decide, by decide, by decide, by decide⟩
    · exact ⟨by decide, by decide, by decide, by decide, by decide⟩
  have hm : smallArchiveMemory.Holds 4096
      (newcArchive smallArchive (plainEntry trailerName [] 0 0) []) := by
    intro i b hb
    rw [smallArchiveMemory, Nat.add_sub_cancel_left, Memory.zeroPadded, hb, Option.getD_some]
  have hallocate : AllocationsSucceed (fun n => 512 * (n + 1)) 3 := by
    constructor
    · intro i _
      show 512 * (i + 1) ≠ 0
      omega
    · intro i _ j hj
      show 512 * (j + 1) ≠ 512 * (i + 1)
      omega
  obtain ⟨root, volume, nodes, hmount, hlinks, hdescribes, -⟩ :=
    fsCPIOMount_newc hvalid rfl hm (by decide +kernel) hallocate
      (show smallArchive.length < 3 by decide)
  exact ⟨root, volume, nodes, hmount, hlinks, hdescribes⟩

end TermOS.FS
