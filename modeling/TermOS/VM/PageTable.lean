import Mathlib.Logic.Function.Basic
import TermOS.Lib.TableForest
import TermOS.VM.VMM

/-!
# Page tables as a table forest

The page tables of all address spaces are one store of tables in physical
memory. This module instantiates `Lib.TableForest` with it: the hardware walk,
the role that each frame plays, and the well-formedness of a state with
respect to a role assignment.
-/

namespace TermOS.VM

open TermOS.Lib TermOS.Kernel TermOS.Lib.TableForest

/-! ## Section 1: Entries in physical memory -/

namespace VMState

/-- Entry `index` of the table at physical address `table`. -/
def entry (s : VMState) (table : Nat) (index : Fin 512) : Nat :=
  s.mem.word (table + 8 * index.val)

/-- Write entry `index` of the table at physical address `table`. -/
def setEntry (s : VMState) (table : Nat) (index : Fin 512) (value : Nat) : VMState :=
  { s with mem := s.mem.setWord (table + 8 * index.val) value }

/-- Zero the page at physical address `page`. -/
def zeroPage (s : VMState) (page : Nat) : VMState :=
  { s with mem := s.mem.fill page kVMPageSize 0 }

end VMState

theorem entry_lt (s : VMState) (table : Nat) (index : Fin 512) : s.entry table index < 2 ^ 64 :=
  Memory.word_lt s.mem _

theorem entry_congr {s s' : VMState} (hmem : s'.mem = s.mem) (table : Nat) (index : Fin 512) :
    s'.entry table index = s.entry table index := by
  rw [VMState.entry, VMState.entry, hmem]

/-- Two slots of page-aligned tables overlap only when they are the same slot. -/
theorem slot_disjoint {t t' : Nat} {i i' : Fin 512} (ht : t % 4096 = 0) (ht' : t' % 4096 = 0)
    (h : ¬ (t' = t ∧ i' = i)) :
    t' + 8 * i'.val + 8 ≤ t + 8 * i.val ∨ t + 8 * i.val + 8 ≤ t' + 8 * i'.val := by
  have hi := i.isLt
  have hi' := i'.isLt
  by_cases hii : i' = i
  · have htt : t' ≠ t := fun e => h ⟨e, hii⟩
    subst hii
    omega
  · have : i'.val ≠ i.val := fun e => hii (Fin.ext e)
    omega

theorem entry_setEntry (s : VMState) {t t' : Nat} {i i' : Fin 512} {v : Nat} (hv : v < 2 ^ 64)
    (ht : t % 4096 = 0) (ht' : t' % 4096 = 0) :
    (s.setEntry t i v).entry t' i' = if t' = t ∧ i' = i then v else s.entry t' i' := by
  split
  · next h =>
    obtain ⟨rfl, rfl⟩ := h
    exact Memory.word_setWord_same _ _ hv
  · next h => exact Memory.word_setWord_disjoint _ _ (slot_disjoint ht ht' h)

theorem entry_setEntry_same (s : VMState) (t : Nat) (i : Fin 512) {v : Nat} (hv : v < 2 ^ 64) :
    (s.setEntry t i v).entry t i = v :=
  Memory.word_setWord_same _ _ hv

theorem entry_zeroPage_same (s : VMState) (t : Nat) (i : Fin 512) : (s.zeroPage t).entry t i = 0 := by
  have hi := i.isLt
  exact Memory.readLE_fill_zero _ (by omega) (by simp only [kVMPageSize]; omega)

theorem entry_zeroPage_ne (s : VMState) {t t' : Nat} (i : Fin 512) (ht : t % 4096 = 0)
    (ht' : t' % 4096 = 0) (h : t' ≠ t) : (s.zeroPage t).entry t' i = s.entry t' i := by
  have hi := i.isLt
  exact Memory.readLE_fill_disjoint _ _ (by simp only [kVMPageSize]; omega)

/-- A write to a slot leaves every byte outside the table's page alone. -/
theorem mem_setEntry_outside (s : VMState) {t x : Nat} (i : Fin 512) (v : Nat) (ht : t % 4096 = 0)
    (hx : x / 4096 * 4096 ≠ t) : (s.setEntry t i v).mem x = s.mem x := by
  have hi := i.isLt
  exact Memory.writeLE_outside _ _ (by omega)

theorem mem_zeroPage_outside (s : VMState) {t x : Nat} (ht : t % 4096 = 0)
    (hx : x / 4096 * 4096 ≠ t) : (s.zeroPage t).mem x = s.mem x :=
  Memory.fill_outside _ _ (by simp only [kVMPageSize]; omega)

@[simp] theorem setEntry_pmm (s : VMState) (t : Nat) (i : Fin 512) (v : Nat) :
    (s.setEntry t i v).pmm = s.pmm := rfl

@[simp] theorem setEntry_kernelPML4 (s : VMState) (t : Nat) (i : Fin 512) (v : Nat) :
    (s.setEntry t i v).kernelPML4 = s.kernelPML4 := rfl

@[simp] theorem setEntry_isInitialized (s : VMState) (t : Nat) (i : Fin 512) (v : Nat) :
    (s.setEntry t i v).isInitialized = s.isInitialized := rfl

@[simp] theorem zeroPage_pmm (s : VMState) (t : Nat) : (s.zeroPage t).pmm = s.pmm := rfl

@[simp] theorem zeroPage_kernelPML4 (s : VMState) (t : Nat) :
    (s.zeroPage t).kernelPML4 = s.kernelPML4 := rfl

@[simp] theorem zeroPage_isInitialized (s : VMState) (t : Nat) :
    (s.zeroPage t).isInitialized = s.isInitialized := rfl

-- From here on entries are values; unfolding them to bytes only costs time.
attribute [irreducible] VMState.entry

/-! ## Section 2: Kernel pointers reach the tables -/

theorem translate_physToHhdm (s : VMState) (h : s.isInitialized = true) {p : Nat}
    (hp : p < 2 ^ 64) : s.translate (physToHhdm p) = p := by
  simp only [VMState.translate, h, if_true, hhdmToPhys, physToHhdm, wrap64, hhdmOffset]
  omega

theorem translate_getVirtualTable {s s' : VMState} (hinit : s'.isInitialized = s.isInitialized)
    {p : Nat} (hp : p < 2 ^ 64) : s'.translate (sVMGetVirtualTable s p) = p := by
  cases h : s.isInitialized with
  | false => simp [VMState.translate, sVMGetVirtualTable, hinit, h]
  | true =>
    rw [sVMGetVirtualTable, h, if_pos rfl]
    exact translate_physToHhdm s' (hinit.trans h) hp

theorem translate_slot {s s' : VMState} (hinit : s'.isInitialized = s.isInitialized)
    {t : Nat} (ht : t < 2 ^ 52) (i : Fin 512) :
    s'.translate (wrap64 (sVMGetVirtualTable s t + 8 * i.val)) = t + 8 * i.val := by
  have hi := i.isLt
  cases h : s.isInitialized with
  | false =>
    simp only [VMState.translate, sVMGetVirtualTable, hinit, h, wrap64, Bool.false_eq_true, if_false]
    omega
  | true =>
    simp only [VMState.translate, sVMGetVirtualTable, hinit, h, wrap64, if_true, hhdmToPhys,
      physToHhdm, hhdmOffset]
    omega

theorem load_eq_entry {s s' : VMState} (hinit : s'.isInitialized = s.isInitialized) {t : Nat}
    (ht : t < 2 ^ 52) (i : Fin 512) : s'.load (sVMGetVirtualTable s t) i.val = s'.entry t i := by
  rw [VMState.load, translate_slot hinit ht, VMState.entry]

theorem store_eq_setEntry {s s' : VMState} (hinit : s'.isInitialized = s.isInitialized) {t : Nat}
    (ht : t < 2 ^ 52) (i : Fin 512) (v : Nat) :
    s'.store (sVMGetVirtualTable s t) i.val v = s'.setEntry t i v := by
  rw [VMState.store, translate_slot hinit ht, VMState.setEntry]

theorem clearPage_eq_zeroPage {s s' : VMState} (hinit : s'.isInitialized = s.isInitialized)
    {t : Nat} (ht : t < 2 ^ 52) : s'.clearPage (sVMGetVirtualTable s t) = s'.zeroPage t := by
  rw [VMState.clearPage, translate_getVirtualTable hinit (by omega), memorySet_eq_fill,
    VMState.zeroPage]

/-! ## Section 3: The hardware walk -/

/-- The table that a present upper-level entry points to. -/
def childTable (entry : Nat) : Option Nat :=
  if entry &&& ptePresent = 0 then none else some (pteGetAddr entry)

def pml4Slot (virt : Nat) : Fin 512 := ⟨vmmPML4Index virt, vmmPML4Index_lt virt⟩
def pdptSlot (virt : Nat) : Fin 512 := ⟨vmmPDPTIndex virt, vmmPDPTIndex_lt virt⟩
def pdSlot (virt : Nat) : Fin 512 := ⟨vmmPDIndex virt, vmmPDIndex_lt virt⟩
def ptSlot (virt : Nat) : Fin 512 := ⟨vmmPTIndex virt, vmmPTIndex_lt virt⟩

/-- The slots that a walk takes in the PML4, the PDPT and the PD. -/
def upperPath (virt : Nat) : List (Fin 512) := [pml4Slot virt, pdptSlot virt, pdSlot virt]

/-- All four slots: two addresses lie in the same virtual page iff these agree. -/
def pagePath (virt : Nat) : List (Fin 512) := upperPath virt ++ [ptSlot virt]

/-- The address translates through one of the upper 256 PML4 slots. -/
def KernelHalf (virt : Nat) : Prop := 256 ≤ (pml4Slot virt).val

instance (virt : Nat) : Decidable (KernelHalf virt) := inferInstanceAs (Decidable (_ ≤ _))

namespace VMState

/-- The page table that the walk of `virt` reaches from `root`. -/
def leafTable (s : VMState) (root virt : Nat) : Option Nat :=
  follow childTable s.entry root (upperPath virt)

/-- A page-table entry as the hardware reads it: frame and flags. -/
def decode (entry : Nat) : Option (Nat × Nat) :=
  if entry &&& ptePresent = 0 then none else some (pteGetAddr entry, pteGetFlags entry)

/-- The 4-level walk of `virt` from `root`. -/
def walk (s : VMState) (root virt : Nat) : Option (Nat × Nat) :=
  (s.leafTable root virt).bind fun pt => decode (s.entry pt (ptSlot virt))

/-- The entry carries the USER bit. -/
def UserEntry (entry : Nat) : Prop := entry &&& pteUser ≠ 0

/-- The entry carries the RW bit. -/
def WritableEntry (entry : Nat) : Prop := entry &&& pteRW ≠ 0

/-- The three upper entries on the walk of `virt` carry the USER bit. -/
def UpperUser (s : VMState) (root virt : Nat) : Prop :=
  AllAlong childTable UserEntry s.entry root (upperPath virt)

/-- `virt` is mapped, with the USER bit at all four levels. -/
def UserAccessible (s : VMState) (root virt : Nat) : Prop :=
  s.UpperUser root virt ∧ ∃ frame flags, s.walk root virt = some (frame, flags) ∧
    flags &&& pteUser ≠ 0

end VMState

open VMState

theorem upperPath_length (virt : Nat) : (upperPath virt).length = 3 := rfl

theorem pagePath_eq_iff {virt virt' : Nat} :
    pagePath virt = pagePath virt' ↔ upperPath virt = upperPath virt' ∧ ptSlot virt = ptSlot virt' := by
  simp [pagePath, upperPath]
  tauto

theorem walk_eq_some {s : VMState} {root virt : Nat} {m : Nat × Nat} :
    s.walk root virt = some m ↔
      ∃ pt, s.leafTable root virt = some pt ∧ decode (s.entry pt (ptSlot virt)) = some m := by
  rw [VMState.walk, Option.bind_eq_some_iff]

@[simp] theorem decode_zero : decode 0 = none := rfl

theorem decode_frame_mod {entry frame flags : Nat} (h : decode entry = some (frame, flags)) :
    frame % kVMPageSize = 0 := by
  rw [decode] at h
  split at h
  · exact absurd h (by simp)
  · obtain ⟨rfl, -⟩ := Prod.mk.inj (Option.some.inj h)
    exact pteGetAddr_mod entry

theorem decode_or {phys flags : Nat} (hphys : IsFrameAddress phys) (hflags : IsFlagWord flags)
    (hpresent : flags &&& ptePresent ≠ 0) : decode (phys ||| flags) = some (phys, flags) := by
  have hbit : (phys ||| flags) &&& ptePresent = flags &&& ptePresent :=
    or_and_flag hphys (by decide)
  rw [decode, hbit, if_neg hpresent, pteGetAddr_or hphys hflags, pteGetFlags_or hphys hflags]

theorem childTable_or_user (entry flags : Nat) :
    childTable (entry ||| (flags &&& pteUser)) = childTable entry := by
  rw [childTable, childTable, or_user_and_present, pteGetAddr_or_user]

theorem childTable_link {frame : Nat} (hframe : IsFrameAddress frame) (flags : Nat) :
    childTable (frame ||| tableFlags flags) = some frame := by
  have hbit : (frame ||| tableFlags flags) &&& ptePresent = tableFlags flags &&& ptePresent :=
    or_and_flag hframe (by decide)
  rw [childTable, hbit, if_neg (tableFlags_present flags),
    pteGetAddr_or hframe (isFlagWord_tableFlags flags)]

@[simp] theorem childTable_zero : childTable 0 = none := rfl

/-! ## Section 4: Roles of frames -/

/-- What a frame is used for: a table of the address space `root` at the end of
`path`, the frame of one of its pages, or something that no address space owns. -/
inductive FrameRole where
  | table (root : Nat) (path : List (Fin 512))
  | page (root : Nat) (path : List (Fin 512))
  | reserved
  deriving DecidableEq, Repr

/-- A role assignment, keyed by frame address. -/
abbrev Roles := Nat → Option FrameRole

/-- Every role of `role` is one of `role'`. -/
def Roles.Extends (role role' : Roles) : Prop := ∀ a x, role a = some x → role' a = some x

theorem Roles.Extends.trans {role role' role'' : Roles} (h : Extends role role')
    (h' : Extends role' role'') : Extends role role'' :=
  fun a x ha => h' a x (h a x ha)

theorem Roles.Extends.update_of_none {role : Roles} {a : Nat} (ha : role a = none)
    (x : FrameRole) : Extends role (Function.update role a (some x)) := by
  intro b y hb
  have hba : b ≠ a := by
    rintro rfl
    rw [ha] at hb
    exact absurd hb (by simp)
  rwa [Function.update_of_ne hba]

/-- The page tables of `roots` form a forest: every present upper entry leads
to a table whose role extends the role of its own table by the slot, except
that the upper half of a PML4 may lead to tables of the kernel. No two tables
have the same role, and no frame with a role is free. -/
structure WellFormed (roots : List Nat) (role : Roles) (s : VMState) : Prop where
  kernel_root : s.kernelPML4 ∈ roots
  root_role : ∀ {r}, r ∈ roots → role r = some (.table r [])
  root_self : ∀ {t r}, role t = some (.table r []) → t = r
  path_length : ∀ {t r p}, role t = some (.table r p) → p.length ≤ 3
  child_role : ∀ {t r p i c}, role t = some (.table r p) → p.length < 3 →
    childTable (s.entry t i) = some c → ∃ r', role c = some (.table r' (p ++ [i])) ∧
      (r' = r ∨ (p = [] ∧ 256 ≤ i.val ∧ r' = s.kernelPML4))
  parent_role : ∀ {c r p i}, role c = some (.table r (p ++ [i])) →
    ∃ t, role t = some (.table r p) ∧ childTable (s.entry t i) = some c
  role_inj : ∀ {t t' r p}, role t = some (.table r p) → role t' = some (.table r p) → t = t'
  table_frame : ∀ {t r p}, role t = some (.table r p) → IsFrameAddress t
  role_notFree : ∀ {t x}, role t = some x → ¬ s.pmm.FrameFree (t / kVMPageSize)
  free_frame : ∀ {f}, s.pmm.FrameFree f → f ≠ 0 ∧ f * kVMPageSize < 2 ^ 52

/-- Every link of the tables carries the RW bit. -/
def LinksWritable (role : Roles) (s : VMState) : Prop :=
  ∀ t r p i c, role t = some (.table r p) → p.length < 3 → childTable (s.entry t i) = some c →
    WritableEntry (s.entry t i)

/-- A table with `n` levels of tables below it. -/
def TableAt (role : Roles) (n : Nat) (t : Nat) : Prop :=
  ∃ r p, role t = some (.table r p) ∧ p.length + n = 3

namespace WellFormed

variable {roots : List Nat} {role : Roles} {s : VMState}

/-- States with the same links between tables are equally well formed, as long as no
frame has become free. -/
theorem of_links {s' : VMState} (h : WellFormed roots role s)
    (hkernel : s'.kernelPML4 = s.kernelPML4)
    (hfree : ∀ {f}, s'.pmm.FrameFree f → s.pmm.FrameFree f)
    (hchild : ∀ {t r p i}, role t = some (.table r p) → p.length < 3 →
      childTable (s'.entry t i) = childTable (s.entry t i)) : WellFormed roots role s' where
  kernel_root := hkernel ▸ h.kernel_root
  root_role := h.root_role
  root_self := h.root_self
  path_length := h.path_length
  child_role := by
    intro t r p i c ht hp hc
    rw [hkernel]
    exact h.child_role ht hp ((hchild ht hp).symm.trans hc)
  parent_role := by
    intro c r p i hc
    obtain ⟨t, ht, hlink⟩ := h.parent_role hc
    have hp : p.length < 3 := by
      have hlength := h.path_length hc
      simp only [List.length_append, List.length_singleton] at hlength
      omega
    exact ⟨t, ht, (hchild ht hp).trans hlink⟩
  role_inj := h.role_inj
  table_frame := h.table_frame
  role_notFree := fun ht hf => h.role_notFree ht (hfree hf)
  free_frame := fun hf => h.free_frame (hfree hf)

theorem stratified (h : WellFormed roots role s) :
    Stratified childTable (TableAt role) s.entry where
  descend := by
    rintro n t i c ⟨r, p, ht, hp⟩ hc
    obtain ⟨r', hr', -⟩ := h.child_role ht (by omega) hc
    exact ⟨r', p ++ [i], hr', by simp; omega⟩

theorem root_at (h : WellFormed roots role s) {r : Nat} (hr : r ∈ roots) : TableAt role 3 r :=
  ⟨r, [], h.root_role hr, rfl⟩

/-- The table reached along a path has the path as its role, in its own
address space or, through the upper half of the PML4, in the kernel's. -/
theorem follow_role (h : WellFormed roots role s) {is : List (Fin 512)} :
    ∀ {t r p c}, role t = some (.table r p) → p.length + is.length ≤ 3 →
      follow childTable s.entry t is = some c →
      ∃ r', role c = some (.table r' (p ++ is)) ∧
        (r' = r ∨ (r' = s.kernelPML4 ∧ p = [] ∧ ∃ i ∈ is.head?, 256 ≤ i.val)) := by
  induction is with
  | nil =>
    intro t r p c ht _ hc
    obtain rfl := Option.some.inj hc
    exact ⟨r, by simpa using ht, .inl rfl⟩
  | cons i is ih =>
    intro t r p c ht hlen hc
    obtain ⟨d, hd, hrest⟩ := follow_cons_eq_some.mp hc
    simp only [List.length_cons] at hlen
    obtain ⟨r₁, hr₁, hvia₁⟩ := h.child_role ht (by omega) hd
    obtain ⟨r₂, hr₂, hvia₂⟩ := ih hr₁ (by simp; omega) hrest
    refine ⟨r₂, by simpa using hr₂, ?_⟩
    rcases hvia₂ with rfl | ⟨-, hnil, -⟩
    · rcases hvia₁ with rfl | ⟨hp, hi, rfl⟩
      · exact .inl rfl
      · exact .inr ⟨rfl, hp, i, by simp, hi⟩
    · simp at hnil

theorem leafTable_role (h : WellFormed roots role s) {r virt pt : Nat} (hr : r ∈ roots)
    (hpt : s.leafTable r virt = some pt) :
    ∃ r', role pt = some (.table r' (upperPath virt)) ∧
      (r' = r ∨ (r' = s.kernelPML4 ∧ KernelHalf virt)) := by
  obtain ⟨r', hrole, hvia⟩ := h.follow_role (h.root_role hr) (by simp [upperPath_length]) hpt
  refine ⟨r', hrole, ?_⟩
  rcases hvia with rfl | ⟨rfl, -, i, hi, hle⟩
  · exact .inl rfl
  · obtain rfl : pml4Slot virt = i := by simpa [upperPath] using hi
    exact .inr ⟨rfl, hle⟩

end WellFormed

end TermOS.VM
