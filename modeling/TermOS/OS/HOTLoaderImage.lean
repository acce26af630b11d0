import TermOS.OS.HOTLoader

/-!
# What loading puts into the user half

The contents of the user half of an address space, page by page, are an
abstract image. Each turn of the loader replaces one page of it. With enough
free frames, loading a file into a fresh address space builds exactly the image
that the file describes.
-/

namespace TermOS.OS

open TermOS.Lib TermOS.Kernel TermOS.VM TermOS.Lib.TableForest VMState

/-! ## Section 1: The file -/

section File

variable {data data' : Memory}

/-- The header is read from its own bytes. -/
theorem readHeader_congr (h : ∀ x, x < hotHeaderSize → data x = data' x) :
    readHeader data = readHeader data' := by
  have hfield : ∀ start count, start + count ≤ hotHeaderSize →
      data.readLE start count = data'.readLE start count := by
    intro start count hle
    apply Memory.readLE_congr
    intro x _ hlt
    exact h x (by omega)
  simp only [readHeader, Memory.word, hfield _ _ (show 0 + 4 ≤ hotHeaderSize by decide),
    hfield _ _ (show 4 + 1 ≤ hotHeaderSize by decide), hfield _ _ (show 5 + 3 ≤ hotHeaderSize by decide),
    hfield _ _ (show 8 + 8 ≤ hotHeaderSize by decide), hfield _ _ (show 16 + 8 ≤ hotHeaderSize by decide),
    hfield _ _ (show 24 + 8 ≤ hotHeaderSize by decide)]

/-- So is each record. -/
theorem readSegment_congr {i : Nat} (hi : hotHeaderSize + hotSegmentSize * (i + 1) < 2 ^ 64)
    (h : ∀ x, x < hotHeaderSize + hotSegmentSize * (i + 1) → data x = data' x) :
    readSegment data i = readSegment data' i := by
  simp only [hotHeaderSize, hotSegmentSize] at hi h
  have hfield : ∀ offset, offset + 8 ≤ hotSegmentSize →
      data.word (hotHeaderSize + hotSegmentSize * i + offset) =
        data'.word (hotHeaderSize + hotSegmentSize * i + offset) := by
    intro offset hle
    apply Memory.readLE_congr
    intro x _ hlt
    simp only [hotHeaderSize, hotSegmentSize] at hle hlt
    exact h x (by omega)
  have hbase : wrap64 (hotHeaderSize + hotSegmentSize * i) = hotHeaderSize + hotSegmentSize * i :=
    wrap64_of_lt (by simp only [hotHeaderSize, hotSegmentSize]; omega)
  have htype := hfield 0 (by decide)
  rw [Nat.add_zero] at htype
  simp only [readSegment, readSegmentAt, hbase, htype, hfield 8 (by decide), hfield 16 (by decide),
    hfield 24 (by decide), hfield 32 (by decide)]

end File

/-! ## Section 2: Images -/

/-- The bytes of each mapped page, by page number. -/
abbrev UserImage := Nat → Option (Nat → UInt8)

/-- One more page, or another one in its place. -/
def UserImage.putPage (image : UserImage) (page : Nat × (Nat → UInt8)) : UserImage :=
  Function.update image page.1 (some page.2)

/-- Pages with different numbers do not replace each other. -/
theorem foldl_putPage_of_mem {pages : List (Nat × (Nat → UInt8))}
    (hnodup : (pages.map Prod.fst).Nodup) {page : Nat × (Nat → UInt8)} (hpage : page ∈ pages)
    (image : UserImage) : pages.foldl UserImage.putPage image page.1 = some page.2 := by
  induction pages using List.reverseRecOn with
  | nil => exact absurd hpage (by simp)
  | append_singleton rest last ih =>
    rw [List.map_append, List.nodup_append] at hnodup
    obtain ⟨hrest, -, hdisjoint⟩ := hnodup
    rw [List.foldl_append, List.foldl_cons, List.foldl_nil, UserImage.putPage]
    rcases List.mem_append.mp hpage with hmem | hlast
    · have hne : page.1 ≠ last.1 :=
        hdisjoint _ (List.mem_map_of_mem hmem) _ (by simp)
      rw [Function.update_of_ne hne]
      exact ih hrest hmem
    · rw [List.mem_singleton.mp hlast, Function.update_self]

theorem foldl_putPage_of_not_mem {pages : List (Nat × (Nat → UInt8))} {number : Nat}
    (hnumber : number ∉ pages.map Prod.fst) (image : UserImage) :
    pages.foldl UserImage.putPage image number = image number := by
  induction pages generalizing image with
  | nil => rfl
  | cons page rest ih =>
    rw [List.map_cons, List.mem_cons, not_or] at hnumber
    rw [List.foldl_cons, ih hnumber.2, UserImage.putPage, Function.update_of_ne hnumber.1]

/-- The page that a turn of the loader puts into the image. -/
def turnPage (data : Memory) (turn : HOTSegment × Nat) : Nat × (Nat → UInt8) :=
  (pageNumber turn.2, pageByte data turn.1 turn.2)

/-- The image that a file describes. -/
def hotImage (data : Memory) : UserImage :=
  ((hotTurns data).map (turnPage data)).foldl UserImage.putPage fun _ => none

/-! ## Section 3: Address spaces that hold an image -/

/-- The user half of `pml4` has exactly the pages of `image`, with its bytes, in
frames of their own. -/
structure Holds (spaces : List Nat) (role : Roles) (s : VMState) (pml4 : Nat) (image : UserImage) :
    Prop where
  consistent : Consistent spaces role s
  unmapped : ∀ {virt}, ¬ KernelHalf virt → image (pageNumber virt) = none → s.walk pml4 virt = none
  mapped : ∀ {virt bytes}, ¬ KernelHalf virt → image (pageNumber virt) = some bytes →
    ∃ frame, s.walk pml4 virt = some (frame, pteUserData) ∧
      role frame = some (.page pml4 (pagePath virt)) ∧
      ∀ i, i < 4096 → s.mem (frame + i) = bytes i

/-- The byte that ring 3 sees at an address. -/
def userByte (s : VMState) (pml4 virt : Nat) : Option UInt8 :=
  (s.walk pml4 virt).map fun m => s.mem (m.1 + virt % 4096)

section Byte

variable {s s' : VMState} {pml4 virt : Nat}

/-- The frame of a mapped page is a frame, so the page's bytes lie in it. -/
theorem walk_floor {frame flags : Nat} (hwalk : s.walk pml4 virt = some (frame, flags)) :
    (frame + virt % 4096) / 4096 * 4096 = frame := by
  obtain ⟨pt, -, hdecode⟩ := walk_eq_some.mp hwalk
  have halign := decode_frame_mod hdecode
  simp only [kVMPageSize] at halign
  omega

/-- A page that is mapped as before to a frame whose bytes are as before. -/
theorem userByte_congr (hwalk : s'.walk pml4 virt = s.walk pml4 virt)
    (hmem : ∀ frame flags, s.walk pml4 virt = some (frame, flags) →
      s'.mem (frame + virt % 4096) = s.mem (frame + virt % 4096)) :
    userByte s' pml4 virt = userByte s pml4 virt := by
  rw [userByte, userByte, hwalk]
  cases h : s.walk pml4 virt with
  | none => rfl
  | some m => exact congrArg some (hmem m.1 m.2 h)

end Byte

section Load

variable {spaces : List Nat} {role : Roles} {s : VMState} {pml4 : Nat} {image : UserImage}
  {data : Memory}

/-- Ring 3 sees the image. -/
theorem Holds.userByte_eq (h : Holds spaces role s pml4 image) {virt : Nat}
    (hlow : ¬ KernelHalf virt) :
    userByte s pml4 virt = (image (pageNumber virt)).map fun bytes => bytes (virt % 4096) := by
  rw [userByte]
  cases himage : image (pageNumber virt) with
  | none => rw [h.unmapped hlow himage, Option.map_none, Option.map_none]
  | some bytes =>
    obtain ⟨frame, hwalk, -, hbytes⟩ := h.mapped hlow himage
    rw [hwalk, Option.map_some, Option.map_some, hbytes _ (Nat.mod_lt _ (by decide))]

/-- A fresh address space holds the empty image. -/
theorem Holds.empty (h : Consistent spaces role s)
    (hfresh : ∀ virt, ¬ KernelHalf virt → s.walk pml4 virt = none) :
    Holds spaces role s pml4 fun _ => none where
  consistent := h
  unmapped := fun hlow _ => hfresh _ hlow
  mapped := fun _ himage => absurd himage (by simp)

/-- One turn, with frames enough for its page and those after it. -/
theorem Holds.loadPage (h : Holds spaces role s pml4 image) (hpml4 : pml4 ∈ spaces)
    {turn : HOTSegment × Nat} (hturn : LoopPage turn.2) {rest : List Nat}
    (henough : framesNeeded s pml4 (turn.2 :: rest) ≤ s.pmm.freeCount) :
    ∃ role', Holds spaces role' (hotTurn pml4 data s turn) pml4 (image.putPage (turnPage data turn)) ∧
      framesNeeded (hotTurn pml4 data s turn) pml4 rest ≤
        (hotTurn pml4 data s turn).pmm.freeCount := by
  obtain ⟨a, role', hgranted, hfills, hcount⟩ := pageTurn_granted writesFrame_id
    (writesFrame_fillPage data turn.1 hturn) h.consistent hpml4
    (missing_lt_of_framesNeeded_le henough)
  rw [← hotTurn_eq] at hgranted hcount hfills
  have hnext := hcount rest
  have hpage := hfills (fillsFrame_fillPage data turn.1 hturn)
  refine ⟨role', ?_, by omega⟩
  exact {
    consistent := hgranted.consistent
    unmapped := by
      intro virt hlow himage
      by_cases hpn : pageNumber virt = pageNumber turn.2
      · rw [hpn, UserImage.putPage, turnPage, Function.update_self] at himage
        exact absurd himage (by simp)
      · rw [UserImage.putPage, turnPage, Function.update_of_ne hpn] at himage
        rw [hgranted.walk_other hpn, h.unmapped hlow himage]
    mapped := by
      intro virt bytes hlow himage
      by_cases hpn : pageNumber virt = pageNumber turn.2
      · rw [hpn, UserImage.putPage, turnPage, Function.update_self] at himage
        obtain rfl := Option.some.inj himage
        refine ⟨a, ?_, ?_, hpage⟩
        · rw [walk_congr _ pml4 hpn, hgranted.walk_eq]
        · rw [hgranted.role_eq, pagePath_eq_iff.mpr (pageNumber_eq_iff.mp hpn)]
      · rw [UserImage.putPage, turnPage, Function.update_of_ne hpn] at himage
        obtain ⟨frame, hframe', hrole, hbytes⟩ := h.mapped hlow himage
        refine ⟨frame, by rw [hgranted.walk_other hpn, hframe'], hgranted.extends_role _ _ hrole,
          fun i hi => ?_⟩
        -- its frame is a page's, which the turn does not write
        have halign : frame % kVMPageSize = 0 := by
          obtain ⟨pt, -, hdecode⟩ := walk_eq_some.mp hframe'
          exact decode_frame_mod hdecode
        have hfloor : (frame + i) / 4096 * 4096 = frame := by
          simp only [kVMPageSize] at halign
          omega
        rw [hgranted.mem_eq (by rw [hfloor, hrole])]
        exact hbytes i hi }

/-- The run of the loader, page by page. -/
theorem Holds.turns (hpml4 : pml4 ∈ spaces) {turns : List (HOTSegment × Nat)} :
    ∀ {role : Roles} {s : VMState} {image : UserImage}, Holds spaces role s pml4 image →
      (∀ t ∈ turns, LoopPage t.2) → framesNeeded s pml4 (turns.map Prod.snd) ≤ s.pmm.freeCount →
      ∃ role', Holds spaces role' (turns.foldl (hotTurn pml4 data) s) pml4
        ((turns.map (turnPage data)).foldl UserImage.putPage image) := by
  induction turns with
  | nil => exact fun h _ _ => ⟨_, h⟩
  | cons turn rest ih =>
    intro role s image h hturns henough
    obtain ⟨role₁, h₁, henough₁⟩ :=
      h.loadPage hpml4 (hturns turn List.mem_cons_self) henough
    exact ih h₁ (fun t ht => hturns t (List.mem_cons_of_mem _ ht)) henough₁

/-- Loading a file into a fresh address space with enough free frames: the user
half holds the image of the file. -/
theorem hotLoad_holds (h : ∃ role, Consistent spaces role s) {process : OSProcess}
    (hprocess : process.physicalPML4 ∈ spaces)
    (hfresh : ∀ virt, ¬ KernelHalf virt → s.walk process.physicalPML4 virt = none)
    (henough : framesNeeded s process.physicalPML4 (hotPages data) ≤ s.pmm.freeCount) :
    ∃ role, Holds spaces role (hotLoad s process data).2 process.physicalPML4 (hotImage data) := by
  obtain ⟨role, h⟩ := h
  rw [hotLoad_eq]
  exact (Holds.empty h hfresh).turns hprocess
    (fun t ht => (loopPage_of_mem_hotTurns ht).2) henough

end Load

end TermOS.OS
