import TermOS.VM.EarlyBoot

/-!
# The entry of the kernel

Model of `_start` in `kernel/src/arch/x86_64/entry.asm`, from the jump of the boot loader to the call
of `kmain`: the three tables that it writes with paging of the firmware still on, and the addresses
that the processor translates through them. The tables lie in `.bss`, which nobody clears.

## Main Definitions

* `start` - the code
* `translate` - what the processor makes of an address

## Main Theorems

* `entry_tables_translate` - whatever the memory held before, the code goes on where it was, on its
  own stack, and with every address that early boot counts on
-/

namespace TermOS.Arch

open TermOS.Lib TermOS.Kernel TermOS.VM

/-! ## Section 1: The processor -/

/-- The registers that the code uses, and the memory. -/
structure EntryState where
  rax : Nat
  rbx : Nat
  rcx : Nat
  rdx : Nat
  rsi : Nat
  rdi : Nat
  rsp : Nat
  rbp : Nat
  r8 : Nat
  r12 : Nat
  cr3 : Nat
  rip : Nat
  memory : Memory

/-- What a walk ends in. -/
structure Translation where
  physical : Nat
  /-- Every level has the RW bit. -/
  writable : Bool
  deriving DecidableEq, Repr

/-- The walk of four levels, with pages of 1 GiB and of 2 MiB where an entry says so. -/
def translate (m : Memory) (cr3 virt : Nat) : Option Translation :=
  let pml4e := m.word (pteGetAddr cr3 + 8 * vmmPML4Index virt)
  if pml4e &&& ptePresent = 0 then none else
  let pdpte := m.word (pteGetAddr pml4e + 8 * vmmPDPTIndex virt)
  if pdpte &&& ptePresent = 0 then none else
  let writable := pml4e &&& pteRW ≠ 0 ∧ pdpte &&& pteRW ≠ 0
  if pdpte &&& pageHuge ≠ 0 then
    some ⟨pteGetAddr pdpte / 2 ^ 30 * 2 ^ 30 + virt % 2 ^ 30, decide writable⟩
  else
    let pde := m.word (pteGetAddr pdpte + 8 * vmmPDIndex virt)
    if pde &&& ptePresent = 0 then none else
    let writable := writable ∧ pde &&& pteRW ≠ 0
    if pde &&& pageHuge ≠ 0 then
      some ⟨pteGetAddr pde / 2 ^ 21 * 2 ^ 21 + virt % 2 ^ 21, decide writable⟩
    else
      let pte := m.word (pteGetAddr pde + 8 * vmmPTIndex virt)
      if pte &&& ptePresent = 0 then none else
      some ⟨pteGetAddr pte + virt % 2 ^ 12, decide (writable ∧ pte &&& pteRW ≠ 0)⟩

/-! ## Section 2: The code -/

/-- The linker's addresses. The three tables follow one another. -/
structure EntryImage where
  pml4Table : Nat
  stackTop : Nat
  higherHalf : Nat

namespace EntryImage

variable (image : EntryImage)

def pdptTable : Nat := image.pml4Table + 4096

def pdTable : Nat := image.pml4Table + 8192

end EntryImage

/-- `sub register, KERNEL_VMA` -/
def subKernelVMA (address : Nat) : Nat := wrap64 (address + 2 ^ 64 - kernelVMA)

namespace EntryState

variable (s : EntryState)

/-- `mov [address], value` -/
def store (address value : Nat) : EntryState :=
  { s with memory := s.memory.setWord (wrap64 address) value }

/-- One turn of `.fill_pd_loop`. -/
def fillTurn : EntryState :=
  let s := { s with r8 := s.rcx }
  let s := { s with r8 := s.r8 ||| (ptePresent ||| pteRW ||| pageHuge) }
  let s := s.store s.rax s.r8
  let s := { s with rcx := wrap64 (s.rcx + 0x200000) }
  let s := { s with rax := wrap64 (s.rax + 8) }
  { s with rbx := wrap64 (s.rbx + 2 ^ 64 - 1) }

/-- `.fill_pd_loop`, for so many turns at most: `jnz` leaves it when `rbx` is 0. -/
def fillPdLoop : Nat → EntryState → Option EntryState
  | 0, _ => none
  | fuel + 1, s => if s.fillTurn.rbx = 0 then some s.fillTurn else fillPdLoop fuel s.fillTurn

/-- `_start` up to the loop. -/
def linkTables (image : EntryImage) : EntryState :=
  let s := { s with r12 := s.rdi }
  let s := { s with rsp := image.stackTop }
  let s := { s with rax := kernelVMA }
  let s := { s with rsp := wrap64 (s.rsp + 2 ^ 64 - s.rax) }
  let s := { s with rdi := subKernelVMA image.pml4Table }
  let s := { s with rsi := subKernelVMA image.pdptTable }
  let s := { s with rdx := subKernelVMA image.pdTable }
  let s := { s with rax := s.rsi ||| (ptePresent ||| pteRW) }
  let s := s.store s.rdi s.rax
  let s := s.store (s.rdi + 4088) s.rax
  let s := { s with rax := s.rdx ||| (ptePresent ||| pteRW) }
  let s := s.store s.rsi s.rax
  let s := s.store (s.rsi + 4080) s.rax
  { s with rcx := 0, rbx := 512, rax := s.rdx }

/-- From the end of the loop to `call kmain`. -/
def enterHigherHalf (image : EntryImage) : EntryState :=
  let s := { s with cr3 := s.rdi }
  let s := { s with rax := image.higherHalf }
  let s := { s with rip := s.rax }
  let s := { s with rsp := image.stackTop }
  let s := { s with rdi := s.r12 }
  { s with rbp := 0 }

/-- `_start`, with at most `fuel` turns of the loop. -/
def start (image : EntryImage) (fuel : Nat) : Option EntryState :=
  (fillPdLoop fuel (s.linkTables image)).map fun s => s.enterHigherHalf image

end EntryState

/-! ## Section 3: The loop -/

section Loop

variable {s : EntryState} {pd : Nat}

/-- The entry of the page directory for the page of 2 MiB with this number. -/
def hugeEntry (i : Nat) : Nat := (i * 0x200000) ||| (ptePresent ||| pteRW ||| pageHuge)

theorem hugeEntry_eq (i : Nat) : hugeEntry i = i * 0x200000 + 0x83 := by
  rw [hugeEntry, Nat.mul_comm, show 0x200000 = 2 ^ 21 from rfl]
  exact (Nat.two_pow_add_eq_or_of_lt (show 0x83 < 2 ^ 21 by decide) i).symm

/-- After `i` turns the first `i` entries are there, and the rest of the memory is as before. -/
structure Filled (s : EntryState) (pd i : Nat) (s' : EntryState) : Prop where
  rcx_eq : s'.rcx = i * 0x200000
  rax_eq : s'.rax = pd + 8 * i
  rbx_eq : s'.rbx = 512 - i
  registers : s'.rdi = s.rdi ∧ s'.r12 = s.r12
  word_eq : ∀ j, j < i → s'.memory.word (pd + 8 * j) = hugeEntry j
  memory_eq : ∀ x, x < pd ∨ pd + 4096 ≤ x → s'.memory x = s.memory x

theorem Filled.turn {s' : EntryState} {i : Nat} (h : Filled s pd i s') (hi : i < 512)
    (hpd : pd + 4096 ≤ 2 ^ 30) : Filled s pd (i + 1) s'.fillTurn := by
  have hplace : wrap64 s'.rax = pd + 8 * i := by
    rw [h.rax_eq, wrap64_of_lt (by omega)]
  have hvalue : s'.rcx ||| (ptePresent ||| pteRW ||| pageHuge) = hugeEntry i := by
    rw [h.rcx_eq, hugeEntry]
  have hmemory : s'.fillTurn.memory = s'.memory.setWord (pd + 8 * i) (hugeEntry i) := by
    rw [← hplace, ← hvalue]
    rfl
  constructor
  · show wrap64 (s'.rcx + 0x200000) = _
    rw [h.rcx_eq, wrap64_of_lt (by omega)]
    omega
  · show wrap64 (s'.rax + 8) = _
    rw [h.rax_eq, wrap64_of_lt (by omega)]
    omega
  · show wrap64 (s'.rbx + 2 ^ 64 - 1) = _
    rw [h.rbx_eq, wrap64]
    omega
  · exact h.registers
  · intro j hj
    rw [hmemory]
    by_cases hji : j = i
    · subst hji
      exact Memory.word_setWord_same _ _ (by rw [hugeEntry_eq]; omega)
    · rw [Memory.word_setWord_disjoint _ _ (by omega)]
      exact h.word_eq j (by omega)
  · intro x hx
    rw [hmemory, Memory.setWord, Memory.writeLE_outside _ _ (by omega)]
    exact h.memory_eq x hx

/-- The loop ends after 512 turns. -/
theorem fillPdLoop_filled (hpd : pd + 4096 ≤ 2 ^ 30) {fuel : Nat} :
    ∀ {i : Nat} {s' : EntryState}, Filled s pd i s' → i < 512 → 512 ≤ fuel + i →
      ∃ last, s'.fillPdLoop fuel = some last ∧ Filled s pd 512 last := by
  induction fuel with
  | zero => exact fun _ hi hfuel => absurd hfuel (by omega)
  | succ fuel ih =>
    intro i s' h hi hfuel
    have hnext := h.turn hi hpd
    rw [EntryState.fillPdLoop]
    by_cases hlast : i + 1 = 512
    · rw [if_pos (by rw [hnext.rbx_eq]; omega)]
      exact ⟨_, rfl, hlast ▸ hnext⟩
    · rw [if_neg (by rw [hnext.rbx_eq]; omega)]
      exact ih hnext (by omega) (by omega)

end Loop

/-! ## Section 4: The tables -/

/-- The image lies in the first GiB, and the tables at the start of a page. -/
structure EntryImage.Linked (image : EntryImage) : Prop where
  aligned : image.pml4Table % 4096 = 0
  tables_ge : kernelVMA ≤ image.pml4Table
  tables_le : image.pml4Table + 12288 ≤ kernelVMA + 2 ^ 30

variable {image : EntryImage} {pml4 : Nat}

/-- Where the first table lies in memory. -/
def EntryImage.pml4Physical (image : EntryImage) : Nat := image.pml4Table - kernelVMA

/-- The tables lie in memory from `pml4` on. -/
structure EntryImage.TablesAt (image : EntryImage) (pml4 : Nat) : Prop where
  aligned : pml4 % 4096 = 0
  bound : pml4 + 12288 ≤ 2 ^ 30
  pml4_eq : subKernelVMA image.pml4Table = pml4
  pdpt_eq : subKernelVMA image.pdptTable = pml4 + 4096
  pd_eq : subKernelVMA image.pdTable = pml4 + 8192

theorem EntryImage.Linked.tablesAt (h : image.Linked) : image.TablesAt image.pml4Physical := by
  have haligned := h.aligned
  have hge := h.tables_ge
  have hle := h.tables_le
  constructor <;>
    simp only [pml4Physical, pdptTable, pdTable, subKernelVMA, wrap64, kernelVMA] at haligned hge hle ⊢ <;>
    omega

/-- A link from a table to the next. -/
def tableLink (table : Nat) : Nat := table ||| (ptePresent ||| pteRW)

theorem tableLink_fields {table : Nat} (h : IsFrameAddress table) :
    pteGetAddr (tableLink table) = table ∧ tableLink table &&& ptePresent ≠ 0 ∧
      tableLink table &&& pteRW ≠ 0 ∧ tableLink table &&& pageHuge = 0 ∧ tableLink table < 2 ^ 64 := by
  refine ⟨pteGetAddr_or h (by decide), ?_, ?_, ?_, or_lt_word (h.2.trans (by decide)) (by decide)⟩
  · rw [tableLink, or_and_flag h (by decide)]
    decide
  · rw [tableLink, or_and_flag h (by decide)]
    decide
  · rw [tableLink, or_and_flag h (by decide)]
    decide

theorem hugeEntry_fields {i : Nat} (hi : i < 512) :
    pteGetAddr (hugeEntry i) = i * 0x200000 ∧ hugeEntry i &&& ptePresent ≠ 0 ∧
      hugeEntry i &&& pteRW ≠ 0 ∧ hugeEntry i &&& pageHuge ≠ 0 := by
  have h : IsFrameAddress (i * 0x200000) := ⟨by omega, by omega⟩
  refine ⟨pteGetAddr_or h (by decide), ?_, ?_, ?_⟩
  · rw [hugeEntry, or_and_flag h (by decide)]
    decide
  · rw [hugeEntry, or_and_flag h (by decide)]
    decide
  · rw [hugeEntry, or_and_flag h (by decide)]
    decide

/-- What the code leaves in memory: four links, the page directory, and around the tables what was
there before. -/
structure TablesWritten (pml4 : Nat) (m m' : Memory) : Prop where
  links : ∀ i, i = 0 ∨ i = 511 → m'.word (pml4 + 8 * i) = tableLink (pml4 + 4096)
  pdpt : ∀ i, i = 0 ∨ i = 510 → m'.word (pml4 + 4096 + 8 * i) = tableLink (pml4 + 8192)
  pd : ∀ i, i < 512 → m'.word (pml4 + 8192 + 8 * i) = hugeEntry i
  memory_eq : ∀ x, x < pml4 ∨ pml4 + 12288 ≤ x → m' x = m x

/-- The tables matter only where they are. -/
theorem TablesWritten.congr {m m' later : Memory} (h : TablesWritten pml4 m m')
    (hsame : ∀ x, pml4 ≤ x → x < pml4 + 12288 → later x = m' x) :
    TablesWritten pml4 later later := by
  have hword : ∀ a, pml4 ≤ a → a + 8 ≤ pml4 + 12288 →
      later.word a = m'.word a := by
    intro a hlow hhigh
    exact Memory.readLE_congr fun x hx hlt => hsame x (by omega) (by omega)
  constructor
  · intro i hi
    rw [hword _ (by omega) (by omega), h.links i hi]
  · intro i hi
    rw [hword _ (by omega) (by omega), h.pdpt i hi]
  · intro i hi
    rw [hword _ (by omega) (by omega), h.pd i hi]
  · exact fun _ _ => rfl

/-- Where all four windows lead. -/
theorem TablesWritten.translate_eq {m m' : Memory} (h : TablesWritten pml4 m m')
    (htables : image.TablesAt pml4) {virt : Nat}
    (hpml4 : vmmPML4Index virt = 0 ∨ vmmPML4Index virt = 511)
    (hpdpt : vmmPDPTIndex virt = 0 ∨ vmmPDPTIndex virt = 510) :
    translate m' pml4 virt = some ⟨virt % 2 ^ 30, true⟩ := by
  have haligned := htables.aligned
  have hbound := htables.bound
  have hroot : pteGetAddr pml4 = pml4 := IsFrameAddress.and_mask ⟨haligned, by omega⟩
  obtain ⟨haddr₁, hpresent₁, hwrite₁, -, -⟩ :=
    tableLink_fields (show IsFrameAddress (pml4 + 4096) from ⟨by omega, by omega⟩)
  obtain ⟨haddr₂, hpresent₂, hwrite₂, hsmall₂, -⟩ :=
    tableLink_fields (show IsFrameAddress (pml4 + 8192) from ⟨by omega, by omega⟩)
  have hindex := vmmPDIndex_lt virt
  obtain ⟨haddr₃, hpresent₃, hwrite₃, hhuge₃⟩ := hugeEntry_fields hindex
  -- the offset in the window, from the number of the page of 2 MiB
  have hoffset : vmmPDIndex virt * 0x200000 / 2 ^ 21 * 2 ^ 21 + virt % 2 ^ 21 = virt % 2 ^ 30 := by
    rw [vmmPDIndex_eq]
    omega
  simp only [translate, hroot, h.links _ hpml4, haddr₁, if_neg hpresent₁, h.pdpt _ hpdpt,
    if_neg hpresent₂, hsmall₂, ne_eq, not_true_eq_false, if_false, haddr₂, h.pd _ hindex,
    if_neg hpresent₃, hhuge₃, not_false_eq_true, if_true, haddr₃, hoffset, hwrite₁, hwrite₂, hwrite₃,
    and_self, decide_true]

/-! ## Section 5: The way into the higher half -/

theorem EntryState.linkTables_spec (htables : image.TablesAt pml4) (s : EntryState) :
    (s.linkTables image).rdi = pml4 ∧ (s.linkTables image).r12 = s.rdi ∧
      (s.linkTables image).rcx = 0 ∧ (s.linkTables image).rbx = 512 ∧
      (s.linkTables image).rax = pml4 + 8192 ∧
      (s.linkTables image).memory =
        (((s.memory.setWord pml4 (tableLink (pml4 + 4096))).setWord
          (pml4 + 4088) (tableLink (pml4 + 4096))).setWord
          (pml4 + 4096) (tableLink (pml4 + 8192))).setWord
          (pml4 + 4096 + 4080) (tableLink (pml4 + 8192)) := by
  have hbound := htables.bound
  have hpml4 := htables.pml4_eq
  have hpdpt := htables.pdpt_eq
  have hpd := htables.pd_eq
  have hwrap : ∀ k, k ≤ 12288 → wrap64 (pml4 + k) = pml4 + k :=
    fun k hk => wrap64_of_lt (by omega)
  refine ⟨hpml4, rfl, rfl, rfl, hpd, ?_⟩
  simp only [EntryState.linkTables, EntryState.store, hpml4, hpdpt, hpd, tableLink, Nat.add_assoc]
  rw [show wrap64 pml4 = pml4 from hwrap 0 (by decide),
    hwrap 4088 (by decide), hwrap 4096 (by decide), hwrap (4096 + 4080) (by decide)]

/-- Up to the jump, the tables are written and nothing else. -/
theorem EntryState.start_written (htables : image.TablesAt pml4) (s : EntryState) {fuel : Nat}
    (hfuel : 512 ≤ fuel) :
    ∃ s', s.start image fuel = some s' ∧ TablesWritten pml4 s.memory s'.memory ∧
      s'.cr3 = pml4 ∧ s'.rdi = s.rdi ∧ s'.rsp = image.stackTop ∧ s'.rbp = 0 ∧
      s'.rip = image.higherHalf := by
  have haligned := htables.aligned
  have hbound := htables.bound
  obtain ⟨hrdi, hr12, hrcx, hrbx, hrax, hmemory⟩ := s.linkTables_spec htables
  have hempty : Filled (s.linkTables image) (pml4 + 8192) 0 (s.linkTables image) :=
    ⟨by rw [hrcx], hrax, hrbx, ⟨rfl, rfl⟩, fun j hj => absurd hj (Nat.not_lt_zero j), fun _ _ => rfl⟩
  obtain ⟨last, hloop, hfilled⟩ := fillPdLoop_filled (by omega) hempty (by decide) (by omega)
  refine ⟨last.enterHigherHalf image, by rw [EntryState.start, hloop, Option.map_some], ?_,
    hfilled.registers.1.trans hrdi, hfilled.registers.2.trans hr12, rfl, rfl, rfl⟩
  have hlt₁ : tableLink (pml4 + 4096) < 2 ^ 64 :=
    (tableLink_fields ⟨by omega, by omega⟩).2.2.2.2
  have hlt₂ : tableLink (pml4 + 8192) < 2 ^ 64 :=
    (tableLink_fields ⟨by omega, by omega⟩).2.2.2.2
  -- the loop writes behind the links
  have hword : ∀ a, a + 8 ≤ pml4 + 8192 →
      last.memory.word a = (s.linkTables image).memory.word a := fun a ha =>
    Memory.readLE_congr fun x _ hx => hfilled.memory_eq x (by omega)
  show TablesWritten pml4 s.memory last.memory
  constructor
  · rintro i (rfl | rfl)
    · rw [hword _ (by omega), hmemory, Memory.word_setWord_disjoint _ _ (by omega),
        Memory.word_setWord_disjoint _ _ (by omega), Memory.word_setWord_disjoint _ _ (by omega)]
      exact Memory.word_setWord_same _ _ hlt₁
    · rw [hword _ (by omega), hmemory, Memory.word_setWord_disjoint _ _ (by omega),
        Memory.word_setWord_disjoint _ _ (by omega)]
      exact Memory.word_setWord_same _ _ hlt₁
  · rintro i (rfl | rfl)
    · rw [hword _ (by omega), hmemory, Memory.word_setWord_disjoint _ _ (by omega)]
      exact Memory.word_setWord_same _ _ hlt₂
    · rw [hword _ (by omega), hmemory]
      exact Memory.word_setWord_same _ _ hlt₂
  · exact fun i hi => hfilled.word_eq i hi
  · intro x hx
    rw [hfilled.memory_eq x (by omega), hmemory]
    simp only [Memory.setWord]
    rw [Memory.writeLE_outside _ _ (by omega), Memory.writeLE_outside _ _ (by omega),
      Memory.writeLE_outside _ _ (by omega), Memory.writeLE_outside _ _ (by omega)]

/-- Whatever the memory held before, `_start` comes to the call of `kmain` with its argument, on the
kernel's stack. It has written its three tables and nothing else, and as long as they stay, every
address that the early kernel counts on leads where it should, for writes too: the first GiB to
itself, and the kernel's addresses to the same memory. -/
theorem entry_tables_translate (image : EntryImage) (hlinked : image.Linked) (s : EntryState)
    {fuel : Nat} (hfuel : 512 ≤ fuel) :
    ∃ s', s.start image fuel = some s' ∧
      s'.rdi = s.rdi ∧ s'.rsp = image.stackTop ∧ s'.rbp = 0 ∧ s'.rip = image.higherHalf ∧
      (∀ x, x < image.pml4Physical ∨ image.pml4Physical + 12288 ≤ x → s'.memory x = s.memory x) ∧
      ∀ later : Memory, (∀ x, image.pml4Physical ≤ x → x < image.pml4Physical + 12288 →
          later x = s'.memory x) →
        (∀ virt physical, entryTranslate virt = some physical →
          translate later s'.cr3 virt = some ⟨physical, true⟩) ∧
        ∀ physical, physical < 2 ^ 30 →
          translate later s'.cr3 physical = some ⟨physical, true⟩ ∧
          translate later s'.cr3 (kernelVMA + physical) = some ⟨physical, true⟩ := by
  have htables := hlinked.tablesAt
  generalize image.pml4Physical = pml4 at *
  obtain ⟨s', hstart, hwritten, hcr3, hrdi, hrsp, hrbp, hrip⟩ := s.start_written htables hfuel
  refine ⟨s', hstart, hrdi, hrsp, hrbp, hrip, hwritten.memory_eq, fun later hlater => ?_⟩
  have hkept := hwritten.congr hlater
  rw [hcr3]
  constructor
  · intro virt physical hentry
    have hbase := pdTable_base (vmmPDIndex_lt virt)
    rw [entryTranslate] at hentry
    split at hentry
    · next hwindow =>
      rw [hkept.translate_eq htables hwindow.1 hwindow.2]
      obtain ⟨entry, hget, hphysical⟩ := Option.map_eq_some_iff.mp hentry
      rw [hget, Option.map_some, Option.some.injEq] at hbase
      have hoffset : virt % 2 ^ 30 = physical := by
        rw [← hphysical, hbase, vmmPDIndex_eq]
        omega
      rw [hoffset]
    · exact absurd hentry (by simp)
  · intro physical hphysical
    have hlow : translate later pml4 physical = some ⟨physical % 2 ^ 30, true⟩ :=
      hkept.translate_eq htables (.inl (by rw [vmmPML4Index_eq]; omega))
        (.inl (by rw [vmmPDPTIndex_eq]; omega))
    have hhigh : translate later pml4 (kernelVMA + physical) =
        some ⟨(kernelVMA + physical) % 2 ^ 30, true⟩ :=
      hkept.translate_eq htables (.inr (by rw [vmmPML4Index_eq, kernelVMA]; omega))
        (.inr (by rw [vmmPDPTIndex_eq, kernelVMA]; omega))
    rw [hlow, hhigh]
    constructor
    · rw [Nat.mod_eq_of_lt hphysical]
    · have hoffset : (kernelVMA + physical) % 2 ^ 30 = physical := by
        rw [kernelVMA]
        omega
      rw [hoffset]

/-- A kernel of about a mebibyte. -/
def smallEntry : EntryImage := ⟨0xFFFFFFFF80120000, 0xFFFFFFFF80128000, 0xFFFFFFFF801000A0⟩

theorem smallEntry_linked : smallEntry.Linked := ⟨by decide, by decide, by decide⟩

/-- The boot loader's call, with memory full of ones. -/
def loaderCall : EntryState where
  rax := 0x100000
  rbx := 0
  rcx := 0
  rdx := 0
  rsi := 0
  rdi := 0x7E000
  rsp := 0x7F000
  rbp := 0x7F100
  r8 := 0
  r12 := 0
  cr3 := 0x1000
  rip := 0x100000
  memory := fun _ => 0xFF

theorem entry_tables_translate_small : ∃ s', loaderCall.start smallEntry 512 = some s' ∧
    s'.rdi = 0x7E000 ∧ translate s'.memory s'.cr3 0xFFFFFFFF80127FF8 = some ⟨0x127FF8, true⟩ := by
  obtain ⟨s', hstart, hrdi, -, -, -, -, hlater⟩ :=
    entry_tables_translate smallEntry smallEntry_linked loaderCall (Nat.le_refl 512)
  exact ⟨s', hstart, hrdi, ((hlater s'.memory fun _ _ _ => rfl).2 0x127FF8 (by decide)).2⟩

end TermOS.Arch
