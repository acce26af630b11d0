import TermOS.OS.HOTLoaderImage
import TermOS.OS.HOTLoaderReads
import TermOS.VM.Heap

/-!
# A loader that looks again

`HOTLoad` keeps only a pointer to the image. It reads the header and the records
through it again in every turn, after the pages before were mapped, so that an
image that asks for a page of the kernel half may replace its own bytes. An
image for the user half cannot: the buffer lies in the kernel half, in frames
that no page gets. Its loader reads what it would of a file that stays as it is.
-/

namespace TermOS.OS

open TermOS.Lib TermOS.Kernel TermOS.VM VMState

/-! ## Section 1: A loader that looks again -/

/-- `HOTLoad` at work: the state of memory, and the offsets that it has read. -/
structure Loading where
  vm : VMState
  reads : List Nat

section Again

variable (image : VMState → Memory) (pml4 : Nat)

/-- The body of the page loop. The record is read when the page is mapped and cleared,
from what the pointer to the image sees then. -/
def loadPageFrom (base : Nat) (l : Loading) (address : Nat) : Loading :=
  let physicalPage := l.vm.allocatePage.1
  let s := (vmVirtualMemoryMapPage l.vm.allocatePage.2 pml4 physicalPage address pteUserData).2
  let data := image (s.clearPage (physToHhdm physicalPage))
  let segment := readSegmentAt data base
  ⟨fillPage data segment s physicalPage address, l.reads ++ pageReads segment base address⟩

/-- The body of the segment loop. -/
def loadSegmentFrom (l : Loading) (i : Nat) : Loading :=
  let base := wrap64 (hotHeaderSize + hotSegmentSize * i)
  let segment := readSegmentAt (image l.vm) base
  if segment.memsz = 0 then { l with reads := l.reads ++ readRange (base + 32) 8 }
  else (pageLoop segment.startPage segment.endPage).foldl (loadPageFrom image pml4 base)
    { l with reads := l.reads ++ (readRange (base + 32) 8 ++ readRange (base + 8) 8) }

/-- The segment loop from turn `i` on, and whether it ends within `fuel` turns. -/
def loadSegmentsFrom : Nat → Nat → Loading → Loading × Bool
  | 0, _, l => (l, false)
  | fuel + 1, i, l =>
    let l := { l with reads := l.reads ++ readRange 16 8 }
    if i < (readHeader (image l.vm)).segmentsCount then
      loadSegmentsFrom fuel (i + 1) (loadSegmentFrom image pml4 l i)
    else (l, true)

/-- `HOTLoad`, as it reads: what the pointer to the image sees in a state of memory is
`image`. `none` means that it has not returned yet. -/
def hotLoadFrom (fuel : Nat) (s : VMState) : Loading × Option Nat :=
  let l : Loading := ⟨s, readRange 0 4⟩
  if (readHeader (image s)).magic ≠ hotMagic then (l, some (2 ^ 64 - 1))
  else
    match loadSegmentsFrom image pml4 fuel 0 l with
    | (l, true) =>
      ({ l with reads := l.reads ++ readRange 8 8 }, some (readHeader (image l.vm)).entryPoint)
    | (l, false) => (l, none)

/-- The states that a loader may read in, of an image for the user half: each page has
been mapped and cleared, and filled with something. -/
inductive LoadsFrom (s : VMState) : VMState → Prop
  | start : LoadsFrom s s
  | cleared {t : VMState} {address : Nat} : LoadsFrom s t → ¬ KernelHalf address →
      LoadsFrom s ((vmVirtualMemoryMapPage t.allocatePage.2 pml4 t.allocatePage.1 address
        pteUserData).2.clearPage (physToHhdm t.allocatePage.1))
  | filled {t : VMState} {address : Nat} (data : Memory) (segment : HOTSegment) : LoadsFrom s t →
      ¬ KernelHalf address → LoopPage address →
      LoadsFrom s (loadPage pml4 data segment t address)

/-- Loading pages of the user half leaves the first `size` bytes of the image alone. -/
def KeepsImage (size : Nat) (s : VMState) : Prop :=
  ∀ t, LoadsFrom pml4 s t → ∀ x, x < size → image t x = image s x

end Again

section Congruence

variable {image image' : VMState → Memory} {pml4 size : Nat} {data : Memory} {s : VMState}
  {l : Loading}

theorem loadPage_eq (pml4 : Nat) (data : Memory) (segment : HOTSegment) (s : VMState) (address : Nat) :
    loadPage pml4 data segment s address = fillPage data segment
      (vmVirtualMemoryMapPage s.allocatePage.2 pml4 s.allocatePage.1 address pteUserData).2
      s.allocatePage.1 address := by
  unfold loadPage
  generalize s.allocatePage = allocated
  obtain ⟨physicalPage, s'⟩ := allocated
  rfl

variable (image pml4)

/-- Nothing that was read is forgotten. -/
theorem reads_foldl_loadPageFrom (base : Nat) (pages : List Nat) :
    ∀ (l : Loading) {x : Nat}, x ∈ l.reads → x ∈ (pages.foldl (loadPageFrom image pml4 base) l).reads := by
  induction pages with
  | nil => exact fun l x hx => hx
  | cons address rest ih =>
    intro l x hx
    rw [List.foldl_cons]
    apply ih
    unfold loadPageFrom
    exact List.mem_append_left _ hx

theorem reads_loadSegmentFrom (i : Nat) (l : Loading) {x : Nat} (hx : x ∈ l.reads) :
    x ∈ (loadSegmentFrom image pml4 l i).reads := by
  unfold loadSegmentFrom
  dsimp only
  split
  · exact List.mem_append_left _ hx
  · apply reads_foldl_loadPageFrom
    exact List.mem_append_left _ hx

theorem reads_loadSegmentsFrom (fuel : Nat) :
    ∀ (i : Nat) (l : Loading) {x : Nat}, x ∈ l.reads →
      x ∈ (loadSegmentsFrom image pml4 fuel i l).1.reads := by
  induction fuel with
  | zero => exact fun i l x hx => hx
  | succ fuel ih =>
    intro i l x hx
    unfold loadSegmentsFrom
    dsimp only
    split
    · apply ih
      apply reads_loadSegmentFrom
      exact List.mem_append_left _ hx
    · exact List.mem_append_left _ hx

variable {image pml4}

/-- Two views that show the same file take a loader to the same state, as long as it reads
nothing but the file. -/
theorem loadPageFrom_congr (himage : ∀ t, LoadsFrom pml4 s t → ∀ x, x < size → image t x = data x)
    (himage' : ∀ t, LoadsFrom pml4 s t → ∀ x, x < size → image' t x = data x) {base address : Nat}
    (hl : LoadsFrom pml4 s l.vm) (hlow : ¬ KernelHalf address) (hloop : LoopPage address)
    (hreads : ∀ x ∈ (loadPageFrom image pml4 base l address).reads, x < size) :
    loadPageFrom image' pml4 base l address = loadPageFrom image pml4 base l address ∧
      LoadsFrom pml4 s (loadPageFrom image pml4 base l address).vm := by
  have hcleared := hl.cleared hlow
  have hfilled := fun d segment => hl.filled d segment hlow hloop
  simp only [loadPage_eq] at hfilled
  unfold loadPageFrom at hreads ⊢
  dsimp only at hreads ⊢
  generalize (vmVirtualMemoryMapPage l.vm.allocatePage.2 pml4 l.vm.allocatePage.1 address
    pteUserData).2 = t at hcleared hfilled hreads ⊢
  obtain ⟨hsame, hfill⟩ := fillPage_congr fun x hx => by
    have hx' := hreads x (List.mem_append_right _ hx)
    exact (himage _ hcleared x hx').trans (himage' _ hcleared x hx').symm
  rw [hsame, hfill]
  exact ⟨rfl, hfilled _ _⟩

theorem foldl_loadPageFrom_congr
    (himage : ∀ t, LoadsFrom pml4 s t → ∀ x, x < size → image t x = data x)
    (himage' : ∀ t, LoadsFrom pml4 s t → ∀ x, x < size → image' t x = data x) {base : Nat}
    {pages : List Nat} (hpages : ∀ address ∈ pages, ¬ KernelHalf address ∧ LoopPage address) :
    ∀ (l : Loading), LoadsFrom pml4 s l.vm →
      (∀ x ∈ (pages.foldl (loadPageFrom image pml4 base) l).reads, x < size) →
      pages.foldl (loadPageFrom image' pml4 base) l = pages.foldl (loadPageFrom image pml4 base) l ∧
        LoadsFrom pml4 s (pages.foldl (loadPageFrom image pml4 base) l).vm := by
  induction pages with
  | nil =>
    intro l hl _
    simp only [List.foldl_nil, true_and]
    exact hl
  | cons address rest ih =>
    intro l hl hreads
    obtain ⟨hlow, hloop⟩ := hpages address List.mem_cons_self
    rw [List.foldl_cons] at hreads
    have hfirstReads : ∀ x ∈ (loadPageFrom image pml4 base l address).reads, x < size :=
      fun x hx => hreads x (reads_foldl_loadPageFrom image pml4 base rest _ hx)
    obtain ⟨hfirst, hnext⟩ := loadPageFrom_congr himage himage' hl hlow hloop hfirstReads
    rw [List.foldl_cons, List.foldl_cons, hfirst]
    exact ih (fun a ha => hpages a (List.mem_cons_of_mem _ ha)) _ hnext hreads

theorem loadSegmentFrom_congr
    (himage : ∀ t, LoadsFrom pml4 s t → ∀ x, x < size → image t x = data x)
    (himage' : ∀ t, LoadsFrom pml4 s t → ∀ x, x < size → image' t x = data x) {i : Nat}
    (huser : ∀ page ∈ (readSegment data i).pages, ¬ KernelHalf page) (l : Loading)
    (hl : LoadsFrom pml4 s l.vm)
    (hreads : ∀ x ∈ (loadSegmentFrom image pml4 l i).reads, x < size) :
    loadSegmentFrom image' pml4 l i = loadSegmentFrom image pml4 l i ∧
      LoadsFrom pml4 s (loadSegmentFrom image pml4 l i).vm := by
  unfold loadSegmentFrom at hreads ⊢
  dsimp only at hreads ⊢
  generalize hbase : wrap64 (hotHeaderSize + hotSegmentSize * i) = base at hreads ⊢
  unfold readSegment at huser
  rw [hbase] at huser
  -- a field of the record that lies in the file
  have hfield : ∀ {start}, (∀ x ∈ readRange start 8, x < size) →
      (image' l.vm).word start = data.word start ∧ (image l.vm).word start = data.word start :=
    fun hstart => ⟨word_eq_of_reads fun x hx => himage' _ hl x (hstart x hx),
      word_eq_of_reads fun x hx => himage _ hl x (hstart x hx)⟩
  have hlast : ∀ x ∈ readRange (base + 32) 8, x < size := by
    intro x hx
    apply hreads
    split
    · exact List.mem_append_right _ hx
    · apply reads_foldl_loadPageFrom
      exact List.mem_append_right _ (List.mem_append_left _ hx)
  obtain ⟨hmemsz', hmemsz⟩ := hfield hlast
  have hmemsz₁ : (readSegmentAt (image l.vm) base).memsz = (readSegmentAt data base).memsz := hmemsz
  have hmemsz₂ : (readSegmentAt (image' l.vm) base).memsz = (readSegmentAt data base).memsz := hmemsz'
  rw [hmemsz₁] at hreads
  rw [hmemsz₁, hmemsz₂]
  by_cases hzero : (readSegmentAt data base).memsz = 0
  · rw [if_pos hzero, if_pos hzero]
    exact ⟨rfl, hl⟩
  rw [if_neg hzero] at hreads
  rw [if_neg hzero, if_neg hzero]
  have hsecond : ∀ x ∈ readRange (base + 8) 8, x < size := by
    intro x hx
    apply hreads
    apply reads_foldl_loadPageFrom
    exact List.mem_append_right _ (List.mem_append_right _ hx)
  obtain ⟨hvaddr', hvaddr⟩ := hfield hsecond
  have hvaddr₁ : (readSegmentAt (image l.vm) base).vaddr = (readSegmentAt data base).vaddr := hvaddr
  have hvaddr₂ : (readSegmentAt (image' l.vm) base).vaddr = (readSegmentAt data base).vaddr := hvaddr'
  -- the same pages
  have hpages : ∀ {segment : HOTSegment}, segment.memsz = (readSegmentAt data base).memsz →
      segment.vaddr = (readSegmentAt data base).vaddr →
      pageLoop segment.startPage segment.endPage = (readSegmentAt data base).pages := by
    intro segment hm hv
    simp only [HOTSegment.pages, if_neg hzero, HOTSegment.startPage, HOTSegment.endPage, hm, hv]
  rw [hpages hmemsz₁ hvaddr₁] at hreads
  rw [hpages hmemsz₁ hvaddr₁, hpages hmemsz₂ hvaddr₂]
  have hlt : (readSegmentAt data base).vaddr < 2 ^ 64 := Memory.word_lt data (base + 8)
  have hloop : ∀ address ∈ (readSegmentAt data base).pages,
      ¬ KernelHalf address ∧ LoopPage address := fun address ha =>
    ⟨huser address ha, (loopPage_of_mem_pages hlt ha).2⟩
  exact foldl_loadPageFrom_congr himage himage' hloop
    ⟨l.vm, l.reads ++ (readRange (base + 32) 8 ++ readRange (base + 8) 8)⟩ hl hreads

theorem loadSegmentsFrom_congr
    (himage : ∀ t, LoadsFrom pml4 s t → ∀ x, x < size → image t x = data x)
    (himage' : ∀ t, LoadsFrom pml4 s t → ∀ x, x < size → image' t x = data x)
    (huser : ∀ i < (readHeader data).segmentsCount, ∀ page ∈ (readSegment data i).pages,
      ¬ KernelHalf page) {fuel : Nat} :
    ∀ (i : Nat) (l : Loading), LoadsFrom pml4 s l.vm →
      (∀ x ∈ (loadSegmentsFrom image pml4 fuel i l).1.reads, x < size) →
      loadSegmentsFrom image' pml4 fuel i l = loadSegmentsFrom image pml4 fuel i l ∧
        LoadsFrom pml4 s (loadSegmentsFrom image pml4 fuel i l).1.vm := by
  -- Induction on the turns that are left; the number of segments is read in each.
  induction fuel with
  | zero =>
    intro i l hl _
    exact ⟨rfl, hl⟩
  | succ fuel ih =>
    intro i l hl hreads
    have hcountReads : ∀ x ∈ readRange 16 8, x < size := by
      intro x hx
      apply hreads
      unfold loadSegmentsFrom
      dsimp only
      split
      · apply reads_loadSegmentsFrom
        apply reads_loadSegmentFrom
        exact List.mem_append_right _ hx
      · exact List.mem_append_right _ hx
    have hcount : (readHeader (image l.vm)).segmentsCount = (readHeader data).segmentsCount :=
      word_eq_of_reads fun x hx => himage _ hl x (hcountReads x hx)
    have hcount' : (readHeader (image' l.vm)).segmentsCount = (readHeader data).segmentsCount :=
      word_eq_of_reads fun x hx => himage' _ hl x (hcountReads x hx)
    unfold loadSegmentsFrom at hreads ⊢
    dsimp only at hreads ⊢
    rw [hcount] at hreads
    rw [hcount, hcount']
    by_cases hturn : i < (readHeader data).segmentsCount
    · rw [if_pos hturn] at hreads
      rw [if_pos hturn, if_pos hturn]
      have hfirstReads : ∀ x ∈ (loadSegmentFrom image pml4 ⟨l.vm, l.reads ++ readRange 16 8⟩ i).reads,
          x < size := fun x hx => hreads x (reads_loadSegmentsFrom image pml4 fuel _ _ hx)
      obtain ⟨hfirst, hnext⟩ :=
        loadSegmentFrom_congr himage himage' (huser i hturn) ⟨l.vm, l.reads ++ readRange 16 8⟩ hl
          hfirstReads
      rw [hfirst]
      exact ih _ _ hnext hreads
    · rw [if_neg hturn, if_neg hturn]
      exact ⟨rfl, hl⟩

/-- Two views that show the same file make the same load, as long as one of the loaders
reads nothing but the file. -/
theorem hotLoadFrom_congr
    (himage : ∀ t, LoadsFrom pml4 s t → ∀ x, x < size → image t x = data x)
    (himage' : ∀ t, LoadsFrom pml4 s t → ∀ x, x < size → image' t x = data x)
    (huser : ∀ page ∈ hotPages data, ¬ KernelHalf page) {fuel : Nat}
    (hreads : ∀ x ∈ (hotLoadFrom image pml4 fuel s).1.reads, x < size) :
    hotLoadFrom image' pml4 fuel s = hotLoadFrom image pml4 fuel s := by
  have hfirst : ∀ x ∈ readRange 0 4, x < size := by
    intro x hx
    apply hreads
    unfold hotLoadFrom
    dsimp only
    split
    · exact hx
    · split
      · next l heq =>
        refine List.mem_append_left _ ?_
        have hkept := reads_loadSegmentsFrom image pml4 fuel 0 ⟨s, readRange 0 4⟩ hx
        rwa [heq] at hkept
      · next l heq =>
        have hkept := reads_loadSegmentsFrom image pml4 fuel 0 ⟨s, readRange 0 4⟩ hx
        rwa [heq] at hkept
  have hmagic : (readHeader (image s)).magic = (readHeader data).magic := by
    apply Memory.readLE_congr
    intro x hle hlt
    exact himage s .start x (hfirst x (mem_readRange.mpr ⟨hle, hlt⟩))
  have hmagic' : (readHeader (image' s)).magic = (readHeader data).magic := by
    apply Memory.readLE_congr
    intro x hle hlt
    exact himage' s .start x (hfirst x (mem_readRange.mpr ⟨hle, hlt⟩))
  unfold hotLoadFrom at hreads ⊢
  dsimp only at hreads ⊢
  rw [hmagic] at hreads
  rw [hmagic, hmagic']
  by_cases hbad : (readHeader data).magic ≠ hotMagic
  · rw [if_pos hbad, if_pos hbad]
  rw [if_neg hbad] at hreads
  rw [if_neg hbad, if_neg hbad]
  have hsegments : ∀ i < (readHeader data).segmentsCount, ∀ page ∈ (readSegment data i).pages,
      ¬ KernelHalf page := by
    intro i hi page hpage
    apply huser
    rw [hotPages, hotTurns, if_neg hbad]
    exact List.mem_map.mpr ⟨(readSegment data i, page), List.mem_flatMap.mpr
      ⟨i, List.mem_range.mpr hi, List.mem_map_of_mem hpage⟩, rfl⟩
  have hloopReads : ∀ x ∈ (loadSegmentsFrom image pml4 fuel 0 ⟨s, readRange 0 4⟩).1.reads,
      x < size := by
    intro x hx
    apply hreads
    split
    · next l heq =>
      rw [heq] at hx
      exact List.mem_append_left _ hx
    · next l heq =>
      rw [heq] at hx
      exact hx
  obtain ⟨hloop, hlast⟩ := loadSegmentsFrom_congr himage himage' hsegments 0 ⟨s, readRange 0 4⟩ .start
    hloopReads
  rw [hloop]
  generalize loadSegmentsFrom image pml4 fuel 0 ⟨s, readRange 0 4⟩ = looped at *
  obtain ⟨l, ended⟩ := looped
  cases ended with
  | false => rfl
  | true =>
    have hentry : ∀ x ∈ readRange 8 8, image l.vm x = image' l.vm x := by
      intro x hx
      have hx' := hreads x (List.mem_append_right _ hx)
      exact (himage l.vm hlast x hx').trans (himage' l.vm hlast x hx').symm
    have hword : (readHeader (image l.vm)).entryPoint = (readHeader (image' l.vm)).entryPoint :=
      word_eq_of_reads hentry
    dsimp only
    rw [hword]

end Congruence

section Constant

variable {pml4 size fuel : Nat} {data : Memory} {s : VMState}

/-- A file that stays as it is: the page loop. -/
theorem foldl_loadPageFrom_const (base : Nat) (pages : List Nat) :
    ∀ l : Loading, pages.foldl (loadPageFrom (fun _ => data) pml4 base) l =
      ⟨pages.foldl (loadPage pml4 data (readSegmentAt data base)) l.vm,
        l.reads ++ pages.flatMap (pageReads (readSegmentAt data base) base)⟩ := by
  induction pages with
  | nil =>
    intro l
    simp only [List.foldl_nil, List.flatMap_nil, List.append_nil]
  | cons address rest ih =>
    intro l
    rw [List.foldl_cons, ih, List.foldl_cons, List.flatMap_cons, loadPage_eq]
    unfold loadPageFrom
    dsimp only
    rw [List.append_assoc]

/-- The body of the segment loop. -/
theorem loadSegmentFrom_const (l : Loading) (i : Nat) :
    loadSegmentFrom (fun _ => data) pml4 l i =
      ⟨loadSegment pml4 data l.vm (readSegment data i), l.reads ++ segmentReads data i⟩ := by
  unfold loadSegmentFrom loadSegment segmentReads readSegment
  dsimp only
  split
  · rw [List.append_nil]
  · next hmemsz =>
    rw [foldl_loadPageFrom_const, HOTSegment.pages, if_neg hmemsz]
    simp only [List.append_assoc]

/-- The segment loop, when it has turns enough to end. -/
theorem loadSegmentsFrom_const (turns : Nat) :
    ∀ (fuel i : Nat) (l : Loading), i + turns = (readHeader data).segmentsCount → turns < fuel →
      loadSegmentsFrom (fun _ => data) pml4 fuel i l =
        (⟨(List.range' i turns).foldl
            (fun s i => loadSegment pml4 data s (readSegment data i)) l.vm,
          l.reads ++ ((List.range' i turns).flatMap (fun i => readRange 16 8 ++ segmentReads data i) ++
            readRange 16 8)⟩, true) := by
  induction turns with
  | zero =>
    intro fuel i l hi hfuel
    obtain ⟨fuel, rfl⟩ := Nat.exists_eq_succ_of_ne_zero (Nat.ne_of_gt hfuel)
    unfold loadSegmentsFrom
    dsimp only
    rw [if_neg (by omega)]
    rfl
  | succ turns ih =>
    intro fuel i l hi hfuel
    obtain ⟨fuel, rfl⟩ := Nat.exists_eq_succ_of_ne_zero (show fuel ≠ 0 by omega)
    unfold loadSegmentsFrom
    dsimp only
    rw [if_pos (by omega), loadSegmentFrom_const, ih fuel (i + 1) _ (by omega) (by omega),
      List.range'_succ, List.foldl_cons, List.flatMap_cons]
    simp only [List.append_assoc]

/-- The segment loop reads nothing else when it has fewer turns. -/
theorem mem_reads_loadSegmentsFrom_const (fuel : Nat) {x : Nat} :
    ∀ (i : Nat) (l : Loading), x ∈ (loadSegmentsFrom (fun _ => data) pml4 fuel i l).1.reads →
      x ∈ l.reads ∨ x ∈ readRange 16 8 ∨
        ∃ j < (readHeader data).segmentsCount, x ∈ segmentReads data j := by
  induction fuel with
  | zero => exact fun i l hx => .inl hx
  | succ fuel ih =>
    intro i l hx
    unfold loadSegmentsFrom at hx
    dsimp only at hx
    split at hx
    · next hi =>
      rw [loadSegmentFrom_const] at hx
      rcases ih _ _ hx with hx | hx
      · simp only [List.mem_append] at hx
        rcases hx with (hx | hx) | hx
        · exact .inl hx
        · exact .inr (.inl hx)
        · exact .inr (.inr ⟨i, hi, hx⟩)
      · exact .inr hx
    · exact (List.mem_append.mp hx).imp_right .inl

/-- A loader of a file that stays as it is does what `hotLoad` says, once it returns. -/
theorem hotLoadFrom_const (process : OSProcess) (hfuel : (readHeader data).segmentsCount < fuel) :
    hotLoadFrom (fun _ => data) process.physicalPML4 fuel s =
      (⟨(hotLoad s process data).2, hotLoadReads data⟩, some (hotLoad s process data).1) := by
  unfold hotLoadFrom hotLoad hotLoadReads
  dsimp only
  split
  · rw [List.append_nil]
  · rw [loadSegmentsFrom_const _ fuel 0 _ (Nat.zero_add _) hfuel]
    simp only [List.range_eq_range', List.append_assoc]

/-- Before that it reads nothing else. -/
theorem mem_reads_hotLoadFrom_const {x : Nat}
    (hx : x ∈ (hotLoadFrom (fun _ => data) pml4 fuel s).1.reads) : x ∈ hotLoadReads data := by
  unfold hotLoadFrom at hx
  unfold hotLoadReads
  dsimp only at hx
  split at hx
  · exact List.mem_append_left _ hx
  · next hmagic =>
    rw [if_neg hmagic]
    have hloop : ∀ y ∈ (loadSegmentsFrom (fun _ => data) pml4 fuel 0 ⟨s, readRange 0 4⟩).1.reads,
        y ∈ readRange 0 4 ++ ((List.range (readHeader data).segmentsCount).flatMap
          (fun i => readRange 16 8 ++ segmentReads data i) ++ readRange 16 8 ++ readRange 8 8) := by
      intro y hy
      simp only [List.mem_append, List.mem_flatMap, List.mem_range]
      rcases mem_reads_loadSegmentsFrom_const fuel 0 _ hy with hy | hy | ⟨j, hj, hy⟩
      · exact .inl hy
      · exact .inr (.inl (.inr hy))
      · exact .inr (.inl (.inl ⟨j, hj, .inr hy⟩))
    split at hx
    · next l heq =>
      rw [heq] at hloop
      rcases List.mem_append.mp hx with hx | hx
      · exact hloop x hx
      · exact List.mem_append_right _ (List.mem_append_right _ hx)
    · next l heq =>
      rw [heq] at hloop
      exact hloop x hx

/-- So a loader of an image for the user half whose reads lie in the file does what one does that
finds the file as it was. -/
theorem hotLoadFrom_eq_const {image : VMState → Memory} (hkeeps : KeepsImage image pml4 size s)
    (huser : ∀ page ∈ hotPages (image s), ¬ KernelHalf page)
    (hreads : ∀ x ∈ hotLoadReads (image s), x < size) (fuel : Nat) :
    hotLoadFrom image pml4 fuel s = hotLoadFrom (fun _ => image s) pml4 fuel s := by
  have hconst : ∀ t, LoadsFrom pml4 s t → ∀ x, x < size → (fun _ => image s) t x = image s x :=
    fun _ _ _ _ => rfl
  apply hotLoadFrom_congr hconst hkeeps huser
  intro x hx
  exact hreads x (mem_reads_hotLoadFrom_const hx)

/-- A loader whose image stays as it is reads within the first `size` bytes exactly when its fields
and what it copies lie there. -/
theorem reads_within_iff_of_keepsImage {image : VMState → Memory} (hsize : size < 2 ^ 63)
    (hkeeps : KeepsImage image pml4 size s) (huser : ∀ page ∈ hotPages (image s), ¬ KernelHalf page) :
    (∀ fuel, ∀ x ∈ (hotLoadFrom image pml4 fuel s).1.reads, x < size) ↔ HOTFits (image s) size := by
  rw [← hotLoadReads_fits_iff hsize]
  constructor
  · intro hreads x hx
    have hconst : ∀ t, LoadsFrom pml4 s t → ∀ x, x < size → (fun _ => image s) t x = image s x :=
      fun _ _ _ _ => rfl
    have hall := hreads ((readHeader (image s)).segmentsCount + 1)
    have hsame := hotLoadFrom_congr hkeeps hconst huser hall
    have hload := hotLoadFrom_const (s := s) ⟨pml4, 0⟩
      (Nat.lt_succ_self (readHeader (image s)).segmentsCount)
    apply hall
    rw [← hsame, hload]
    exact hx
  · intro hreads fuel x hx
    rw [hotLoadFrom_eq_const hkeeps huser hreads] at hx
    exact hreads x (mem_reads_hotLoadFrom_const hx)

end Constant

/-! ## Section 3: The buffer in the kernel's heap -/

/-- What the pointer shows through the page tables of `root`. -/
def imageView (root pointer : Nat) (s : VMState) : Memory :=
  fun i => (userByte s root (wrap64 (pointer + i))).getD 0

/-- The bytes from `pointer` on lie in pages of the kernel half, in frames that are nobody's page
and no table. -/
def ImageBuffer (role : Roles) (s : VMState) (root pointer size : Nat) : Prop :=
  ∀ i, i < size → KernelHalf (wrap64 (pointer + i)) ∧
    ∃ frame flags, s.walk root (wrap64 (pointer + i)) = some (frame, flags) ∧ frame ≠ 0 ∧
      role frame = some .reserved

section Buffer

variable {spaces : List Nat} {role : Roles} {s t t' : VMState} {root pml4 pointer size : Nat}

/-- The kernel half and the reserved frames are as before. -/
structure KeepsReserved (spaces : List Nat) (role : Roles) (s t : VMState) : Prop where
  consistent : ∃ role', Consistent spaces role' t ∧ Roles.Extends role role'
  kernelPML4_eq : t.kernelPML4 = s.kernelPML4
  walk_eq : ∀ r ∈ s.kernelPML4 :: spaces, ∀ virt, KernelHalf virt → t.walk r virt = s.walk r virt
  mem_eq : ∀ x, x / 4096 * 4096 ≠ 0 → role (x / 4096 * 4096) = some .reserved → t.mem x = s.mem x

theorem KeepsReserved.refl (h : Consistent spaces role s) : KeepsReserved spaces role s s :=
  ⟨⟨role, h, fun _ _ => id⟩, rfl, fun _ _ _ _ => rfl, fun _ _ _ => rfl⟩

theorem KeepsReserved.trans (h : KeepsReserved spaces role s t)
    (h' : ∀ role', Consistent spaces role' t → KeepsReserved spaces role' t t') :
    KeepsReserved spaces role s t' := by
  obtain ⟨⟨role₁, hconsistent, hext⟩, hkernel, hwalk, hmem⟩ := h
  obtain ⟨⟨role₂, hconsistent', hext'⟩, hkernel', hwalk', hmem'⟩ := h' role₁ hconsistent
  constructor
  · exact ⟨role₂, hconsistent', hext.trans hext'⟩
  · exact hkernel'.trans hkernel
  · intro r hr virt hhalf
    rw [hwalk' r (by rwa [hkernel]) virt hhalf, hwalk r hr virt hhalf]
  · intro x hne hreserved
    rw [hmem' x hne (hext _ _ hreserved), hmem x hne hreserved]

/-- A turn for a page of the user half. -/
theorem pageTurn_keepsReserved {fill : VMState → Nat → VMState} (hfill : WritesFrame spaces fill)
    (h : Consistent spaces role s) (hpml4 : pml4 ∈ spaces) {address : Nat} (hlow : ¬ KernelHalf address) :
    KeepsReserved spaces role s (pageTurn (fun s _ => s) fill s pml4 address) := by
  -- the page's frame is frame 0, or it was nobody's
  obtain ⟨phys, s₁, role₁, heq, hframe, hother, hext₁, h₁, hsame₁, hmem₁⟩ :
      ∃ phys s₁ role₁, s.allocatePage = (phys, s₁) ∧ IsFrameAddress phys ∧
        (phys = 0 ∨ role phys = none ∧ role₁ phys = some .reserved) ∧ Roles.Extends role role₁ ∧
        Consistent spaces role₁ s₁ ∧ SameTables role s s₁ ∧ s₁.mem = s.mem := by
    rcases h.allocatePage (x := .reserved) (by simp) with ⟨-, heq⟩ |
      ⟨a, s₁, heq, -, hframe, hnone, -, hsame, hmem, h₁⟩
    · exact ⟨0, s, role, heq, by decide, .inl rfl, fun _ _ => id, h, ⟨rfl, rfl, id, fun _ => rfl⟩, rfl⟩
    · exact ⟨a, s₁, _, heq, hframe, .inr ⟨hnone, Function.update_self ..⟩,
        Roles.Extends.update_of_none hnone _, h₁, hsame, hmem⟩
  have hturn : pageTurn (fun s _ => s) fill s pml4 address =
      fill (vmVirtualMemoryMapPage s₁ pml4 phys address pteUserData).2 phys := by
    rw [pageTurn, heq]
  rw [hturn]
  obtain ⟨role₂, h₂, hmap, -⟩ := h₁.mapPage address (List.mem_cons_of_mem _ hpml4) hframe
    (show IsFlagWord pteUserData by decide) (by decide)
  generalize (vmVirtualMemoryMapPage s₁ pml4 phys address pteUserData).2 = s₂ at h₂ hmap
  have hnot : ∀ r p, role₂ phys ≠ some (.table r p) := by
    rcases hother with rfl | ⟨-, hreserved⟩
    · exact h₂.zero_notTable
    · intro r p hrole
      rw [hmap.role_keep _ _ hreserved] at hrole
      simp at hrole
  have hfilled := hfill.sameTables h₂ hframe hnot
  have hkernel₂ : s₂.kernelPML4 = s.kernelPML4 := hmap.kernelPML4_eq.trans hsame₁.kernelPML4_eq
  constructor
  · exact ⟨role₂, hfilled.consistent h₂, hext₁.trans hmap.role_keep⟩
  · exact hfilled.kernelPML4_eq.trans hkernel₂
  · intro r hr virt hhalf
    rw [hfilled.walk_eq h₂.wellFormed (by rwa [hkernel₂]), ← hsame₁.walk_eq h.wellFormed hr]
    apply (hmap.walk_cases (by rwa [hsame₁.kernelPML4_eq])).resolve_right
    rintro ⟨hpage, -, -⟩
    exact hlow ((kernelHalf_congr hpage).mp hhalf)
  · intro x hne hreserved
    have hphys : x / 4096 * 4096 ≠ phys := by
      rintro rfl
      rcases hother with hzero | ⟨hnone, -⟩
      · exact hne hzero
      · rw [hnone] at hreserved
        simp at hreserved
    rw [hfill.mem_eq h₂ hframe hphys, hmap.mem_eq, hmem₁]
    intro r p hrole
    rw [hmap.role_keep _ _ (hext₁ _ _ hreserved)] at hrole
    simp at hrole

/-- Loading pages of the user half. -/
theorem LoadsFrom.keepsReserved (h : Consistent spaces role s) (hpml4 : pml4 ∈ spaces)
    (hloads : LoadsFrom pml4 s t) : KeepsReserved spaces role s t := by
  -- Both kinds of step are turns; they differ in what they write to the frame.
  induction hloads with
  | start => exact KeepsReserved.refl h
  | @cleared t address _ hlow ih =>
    exact ih.trans fun role' h' => pageTurn_keepsReserved writesFrame_clearPage h' hpml4 hlow
  | @filled t address data segment _ hlow hloop ih =>
    apply ih.trans
    intro role' h'
    exact pageTurn_keepsReserved (writesFrame_fillPage data segment hloop) h' hpml4 hlow

/-- So the image in the kernel's heap stays as it is. -/
theorem ImageBuffer.keepsImage (hbuffer : ImageBuffer role s root pointer size)
    (h : Consistent spaces role s) (hpml4 : pml4 ∈ spaces) (hroot : root ∈ s.kernelPML4 :: spaces) :
    KeepsImage (imageView root pointer) pml4 size s := by
  intro t hloads i hi
  obtain ⟨-, -, hwalk, hmem⟩ := hloads.keepsReserved h hpml4
  obtain ⟨hhalf, frame, flags, hframe, hne, hreserved⟩ := hbuffer i hi
  have hsame := hwalk root hroot _ hhalf
  have hbyte : userByte t root (wrap64 (pointer + i)) = userByte s root (wrap64 (pointer + i)) := by
    refine userByte_congr hsame fun frame' flags' hframe' => ?_
    obtain ⟨rfl, -⟩ := Prod.mk.inj (Option.some.inj (hframe.symm.trans hframe'))
    have hfloor := walk_floor hframe'
    exact hmem _ (by rwa [hfloor]) (by rwa [hfloor])
  rw [imageView, imageView, hbyte]

/-- A buffer in the kernel's heap: all of the arena is mapped to frames that the kernel keeps. -/
theorem imageBuffer_heap {m : Machine} (hm : m.Accepted) {heap : List Nat}
    (hboot : m.bootHeap = some (heap, s)) (hfree : s.pmm.freeCount ≠ 0)
    (hsize : pointer + size ≤ kVMKernelHeapStart + heapArenaSize) (hstart : kVMKernelHeapStart ≤ pointer) :
    ∃ role, KernelReady role heap s ∧ ImageBuffer role s s.kernelPML4 pointer size := by
  obtain ⟨role, hready, -⟩ := bootHeap_ready hm hboot
  refine ⟨role, hready, fun i hi => ?_⟩
  simp only [heapArenaSize, kVMKernelHeapStart, kVMHeapSizePages, kVMPageSize] at hsize hstart ⊢
  rw [wrap64_of_lt (by omega)]
  obtain ⟨frame, hframe, hne, hwalk⟩ := bootHeap_walk hm hboot hfree
    (j := (pointer + i - kVMKernelHeapStart) / kVMPageSize)
    (by simp only [kVMHeapSizePages, kVMPageSize, kVMKernelHeapStart]; omega)
  refine ⟨?_, frame, pteKernelData, ?_, hne, hready.heap_reserved frame hframe⟩
  · simp only [KernelHalf, pml4Slot, vmmPML4Index_eq]
    omega
  · rw [← hwalk]
    apply walk_congr
    simp only [pageNumber, kVMKernelHeapStart, kVMPageSize]
    omega

/-- It stays one when a process is created. -/
theorem ImageBuffer.addsRoot {c : Nat} (hbuffer : ImageBuffer role s root pointer size)
    (h : Consistent spaces role s) (hroot : root ∈ s.kernelPML4 :: spaces)
    (hadd : AddsRoot (s.kernelPML4 :: spaces) role s c t) :
    ImageBuffer (Function.update role c (some (.table c []))) t root pointer size := by
  intro i hi
  obtain ⟨hhalf, frame, flags, hwalk, hne, hreserved⟩ := hbuffer i hi
  refine ⟨hhalf, frame, flags, ?_, hne, ?_⟩
  · rw [hadd.walk_old h.wellFormed hroot, hwalk]
  · rw [Function.update_of_ne, hreserved]
    rintro rfl
    rw [hadd.fresh] at hreserved
    simp at hreserved

/-- And what it does is `hotLoad` of the file. -/
theorem hotLoadFrom_eq (h : Consistent spaces role s) {process : OSProcess}
    (hprocess : process.physicalPML4 ∈ spaces) (hroot : root ∈ s.kernelPML4 :: spaces)
    (hsize : size < 2 ^ 63) (hbuffer : ImageBuffer role s root pointer size)
    (huser : ∀ page ∈ hotPages (imageView root pointer s), ¬ KernelHalf page)
    (hfits : HOTFits (imageView root pointer s) size) {fuel : Nat}
    (hfuel : (readHeader (imageView root pointer s)).segmentsCount < fuel) :
    hotLoadFrom (imageView root pointer) process.physicalPML4 fuel s =
      (⟨(hotLoad s process (imageView root pointer s)).2, hotLoadReads (imageView root pointer s)⟩,
        some (hotLoad s process (imageView root pointer s)).1) := by
  rw [hotLoadFrom_eq_const (hbuffer.keepsImage h hprocess hroot) huser
    ((hotLoadReads_fits_iff hsize).mpr hfits), hotLoadFrom_const process hfuel]

/-- The first block of the kernel's heap with a file in it, beside a process without pages. -/
theorem exists_loadedFile (data : Memory) : ∃ role s pml4 root, Consistent [pml4] role s ∧
    root ∈ s.kernelPML4 :: [pml4] ∧
    ImageBuffer role s root (kVMKernelHeapStart + sizeofHeader) 72 ∧
    ∀ i, i < 72 → imageView root (kVMKernelHeapStart + sizeofHeader) s i = data i := by
  obtain ⟨heap, vm, hboot, hcount⟩ := heapMachine_bootHeap
  have hroom : kVMKernelHeapStart + sizeofHeader + 72 ≤ kVMKernelHeapStart + heapArenaSize := by decide
  obtain ⟨role, hready, hbuffer⟩ := imageBuffer_heap heapMachine_accepted hboot (by omega) hroom
    (by decide)
  have hconsistent := hready.consistent
  rcases createAddressSpace_cases hconsistent.wellFormed hconsistent.isInitialized with
    ⟨hfull, -⟩ | ⟨pml4, s, -, -, hadd⟩
  · omega
  have hconsistent₁ := hconsistent.addsRoot hadd
  have hbuffer₁ := hbuffer.addsRoot hconsistent List.mem_cons_self hadd
  have hroot₁ : vm.kernelPML4 ∈ s.kernelPML4 :: [pml4] := by
    rw [hadd.kernelPML4_eq]
    exact List.mem_cons_self
  generalize Function.update role pml4 (some (FrameRole.table pml4 [])) = role₁ at *
  obtain ⟨-, frame, flags, hwalk, -, hreserved⟩ := hbuffer₁ 0 (by decide)
  -- the file is written into the page of the block
  obtain ⟨written, hwritten⟩ : ∃ mem : Memory, mem = fun x =>
      if x / 4096 * 4096 = frame then (data (x % 4096 - sizeofHeader)) else s.mem x := ⟨_, rfl⟩
  have hsame : SameTables role₁ s { s with mem := written } := by
    rw [hwritten]
    apply SameTables.of_mem hconsistent₁.wellFormed
    intro x r p hx
    apply if_neg
    rintro hpage
    rw [hpage, hreserved] at hx
    simp at hx
  have hwalks := fun virt => hsame.walk_eq hconsistent₁.wellFormed hroot₁ virt
  refine ⟨role₁, _, pml4, vm.kernelPML4, hsame.consistent hconsistent₁, hroot₁, fun i hi => ?_,
    fun i hi => ?_⟩
  · rw [hwalks]
    exact hbuffer₁ i hi
  · have hpage : pageNumber (wrap64 (kVMKernelHeapStart + sizeofHeader + i)) =
        pageNumber (wrap64 (kVMKernelHeapStart + sizeofHeader + 0)) := by
      simp only [pageNumber, wrap64, kVMKernelHeapStart, sizeofHeader]
      omega
    have hoffset : wrap64 (kVMKernelHeapStart + sizeofHeader + i) % 4096 = sizeofHeader + i := by
      simp only [wrap64, kVMKernelHeapStart, sizeofHeader]
      omega
    have hfloor := walk_floor ((walk_congr s vm.kernelPML4 hpage).trans hwalk)
    rw [imageView, userByte, hwalks, walk_congr s vm.kernelPML4 hpage, hwalk, Option.map_some,
      Option.getD_some]
    show written (frame + wrap64 (kVMKernelHeapStart + sizeofHeader + i) % 4096) = data i
    rw [hwritten]
    have hlast : (frame + wrap64 (kVMKernelHeapStart + sizeofHeader + i) % 4096) % 4096 - sizeofHeader =
        i := by omega
    exact (if_pos hfloor).trans (congrArg data hlast)

/-- A file of 72 bytes whose segment has one byte at offset 72, the first one
behind the file. -/
def strayFile : Memory := ((oneByteFile 0x400000).setWord 48 72).setWord 56 1

end Buffer

end TermOS.OS
