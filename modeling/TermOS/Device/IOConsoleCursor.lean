import Mathlib.Data.Bool.AllAny
import TermOS.Device.IOConsole

/-!
# The cursor on the screen

Where `IOConsolePutcharacter` draws. The cursor moves in cells of eight by sixteen
pixels, and it is compared with the dimensions of the screen by the corner of its
cell.

## Main Theorems

* `glyphs_visible_iff` - no glyph is clipped exactly on screens that are a whole
  number of cells
* `erase_iff` - when `"\b \b"` undoes a character
-/

namespace TermOS.Device

open TermOS.Lib TermOS.Libterm

/-! ## Section 1: A console with a screen -/

/-- The cell of the console's font. -/
def cellSize : IOGraphicsSize := ⟨8, 16⟩

/-- The console draws on a screen of these dimensions, with its own font. -/
structure HasScreen (console : IOConsole) (dimensions : IOGraphicsSize) : Prop where
  context_eq : ∃ context, console.context = some context ∧ context.dimensions = dimensions
  cell_eq : console.font.size = cellSize

/-- Where one character leaves the cursor. -/
def cursorStep (dimensions : IOGraphicsSize) (cursor : IOGraphicsPoint) (character : UInt8) :
    IOGraphicsPoint :=
  if (cursorNext cellSize dimensions character cursor).y ≥ dimensions.height then ⟨0, 0⟩
  else cursorNext cellSize dimensions character cursor

section Screen

variable {console : IOConsole} {dimensions : IOGraphicsSize}

theorem HasScreen.clear (h : HasScreen console dimensions) (color : UInt32) :
    HasScreen (ioConsoleClear color console) dimensions ∧
      (ioConsoleClear color console).cursorPosition = ⟨0, 0⟩ := by
  obtain ⟨⟨context, hcontext, hdimensions⟩, hcell⟩ := h
  unfold ioConsoleClear
  rw [hcontext]
  exact ⟨⟨⟨_, rfl, hdimensions⟩, hcell⟩, rfl⟩

/-- The screen stays, and the cursor takes its step. -/
theorem HasScreen.putcharacter (h : HasScreen console dimensions) (character : UInt8) :
    HasScreen (ioConsolePutcharacter console character) dimensions ∧
      (ioConsolePutcharacter console character).cursorPosition =
        cursorStep dimensions console.cursorPosition character := by
  obtain ⟨⟨context, hcontext, rfl⟩, hcell⟩ := h
  unfold ioConsolePutcharacter cursorStep
  dsimp only
  rw [hcontext, hcell]
  dsimp only
  split
  · refine HasScreen.clear ?_ _
    exact ⟨⟨_, rfl, rfl⟩, hcell⟩
  · exact ⟨⟨⟨_, rfl, rfl⟩, hcell⟩, rfl⟩

/-- The cursor's steps, from one character to the next. -/
theorem HasScreen.putAll (h : HasScreen console dimensions) (characters : List UInt8) :
    HasScreen (console.putAll characters) dimensions ∧
      (console.putAll characters).cursorPosition =
        characters.foldl (cursorStep dimensions) console.cursorPosition := by
  induction characters generalizing console with
  | nil => exact ⟨h, rfl⟩
  | cons character characters ih =>
    obtain ⟨hnext, hcursor⟩ := h.putcharacter character
    rw [IOConsole.putAll_cons, List.foldl_cons, ← hcursor]
    exact ih hnext

/-- The console after `IOConsoleInit` and `IOConsoleClear`. -/
theorem hasScreen_init (vgaFont : Nat → UInt8) (context : IOGraphicsContext) (color : UInt32)
    (console : IOConsole) :
    HasScreen (ioConsoleClear color (ioConsoleInit vgaFont context console)) context.dimensions ∧
      (ioConsoleClear color (ioConsoleInit vgaFont context console)).cursorPosition = ⟨0, 0⟩ :=
  HasScreen.clear ⟨⟨context, rfl, rfl⟩, rfl⟩ color

end Screen

/-! ## Section 2: Where the cursor can be -/

/-- The cursor is on the screen, at the corner of a cell. -/
structure OnCell (dimensions : IOGraphicsSize) (cursor : IOGraphicsPoint) : Prop where
  x_lt : cursor.x.toNat < dimensions.width.toNat
  y_lt : cursor.y.toNat < dimensions.height.toNat
  x_dvd : 8 ∣ cursor.x.toNat
  y_dvd : 16 ∣ cursor.y.toNat

section Cursor

variable {dimensions : IOGraphicsSize} {cursor : IOGraphicsPoint}

theorem onCell_origin (hwidth : 0 < dimensions.width.toNat) (hheight : 0 < dimensions.height.toNat) :
    OnCell dimensions ⟨0, 0⟩ := ⟨hwidth, hheight, Nat.dvd_zero 8, Nat.dvd_zero 16⟩

/-- All moves are by whole cells, 2^32 being a number of them. -/
theorem OnCell.advance (h : OnCell dimensions cursor) (character : UInt8) :
    8 ∣ (cursorAdvance cellSize character cursor).x.toNat ∧
      16 ∣ (cursorAdvance cellSize character cursor).y.toNat := by
  obtain ⟨-, -, hx, hy⟩ := h
  have hwidth : cellSize.width.toNat = 8 := rfl
  have htab : (cellSize.width * 4).toNat = 32 := rfl
  have hheight : cellSize.height.toNat = 16 := rfl
  unfold cursorAdvance
  split
  · refine ⟨Nat.dvd_zero 8, ?_⟩
    rw [UInt32.toNat_add, hheight]
    omega
  split
  · refine ⟨?_, hy⟩
    rw [UInt32.toNat_add, htab]
    omega
  split
  · refine ⟨?_, hy⟩
    rw [UInt32.toNat_sub, hwidth]
    omega
  · refine ⟨?_, hy⟩
    rw [UInt32.toNat_add, hwidth]
    omega

theorem OnCell.step (h : OnCell dimensions cursor) (character : UInt8) :
    OnCell dimensions (cursorStep dimensions cursor character) := by
  have hwidth : 0 < dimensions.width.toNat := Nat.zero_lt_of_lt h.x_lt
  have hheight : 0 < dimensions.height.toNat := Nat.zero_lt_of_lt h.y_lt
  obtain ⟨hx, hy⟩ := h.advance character
  have hnext : (cursorNext cellSize dimensions character cursor).x.toNat < dimensions.width.toNat ∧
      8 ∣ (cursorNext cellSize dimensions character cursor).x.toNat ∧
      16 ∣ (cursorNext cellSize dimensions character cursor).y.toNat := by
    unfold cursorNext cursorWrap
    split
    · refine ⟨hwidth, Nat.dvd_zero 8, ?_⟩
      have hcell : cellSize.height.toNat = 16 := rfl
      rw [UInt32.toNat_add, hcell]
      omega
    · next hlt =>
      rw [ge_iff_le, UInt32.not_le, UInt32.lt_iff_toNat_lt] at hlt
      exact ⟨hlt, hx, hy⟩
  unfold cursorStep
  split
  · exact onCell_origin hwidth hheight
  · next hlt =>
    rw [ge_iff_le, UInt32.not_le, UInt32.lt_iff_toNat_lt] at hlt
    exact ⟨hnext.1, hlt, hnext.2.1, hnext.2.2⟩

theorem OnCell.steps (h : OnCell dimensions cursor) (characters : List UInt8) :
    OnCell dimensions (characters.foldl (cursorStep dimensions) cursor) := by
  induction characters generalizing cursor with
  | nil => exact h
  | cons character characters ih =>
    rw [List.foldl_cons]
    exact ih (h.step character)

end Cursor

/-! ## Section 3: Visible glyphs -/

/-- A character that is drawn. -/
def DrawsGlyph (character : UInt8) : Prop :=
  character ≠ '\n'.toUInt8 ∧ character ≠ '\t'.toUInt8 ∧ character ≠ '\x08'.toUInt8

instance (character : UInt8) : Decidable (DrawsGlyph character) :=
  inferInstanceAs (Decidable (_ ∧ _ ∧ _))

/-- A printable character, a newline or a tab. -/
def IsText (character : UInt8) : Prop :=
  (32 ≤ character ∧ character < 127) ∨ character = '\n'.toUInt8 ∨ character = '\t'.toUInt8

instance (character : UInt8) : Decidable (IsText character) :=
  inferInstanceAs (Decidable (_ ∨ _ ∨ _))

/-- The cursor positions at which glyphs are drawn while some characters are printed. -/
def glyphPositions (console : IOConsole) : List UInt8 → List IOGraphicsPoint
  | [] => []
  | character :: characters =>
    (if DrawsGlyph character then [console.cursorPosition] else []) ++
      glyphPositions (ioConsolePutcharacter console character) characters

/-- A glyph at this position is not clipped. -/
def GlyphVisible (dimensions : IOGraphicsSize) (point : IOGraphicsPoint) : Prop :=
  point.x.toNat + 8 ≤ dimensions.width.toNat ∧ point.y.toNat + 16 ≤ dimensions.height.toNat

section Glyphs

variable {console : IOConsole} {dimensions : IOGraphicsSize}

/-- Each glyph is drawn where the characters in front of it have left the cursor. -/
theorem mem_glyphPositions_iff (h : HasScreen console dimensions) {printed : List UInt8}
    {point : IOGraphicsPoint} : point ∈ glyphPositions console printed ↔
      ∃ before character after, printed = before ++ character :: after ∧ DrawsGlyph character ∧
        point = before.foldl (cursorStep dimensions) console.cursorPosition := by
  induction printed generalizing console with
  | nil => simp [glyphPositions]
  | cons character printed ih =>
    obtain ⟨hnext, hcursor⟩ := h.putcharacter character
    rw [glyphPositions, List.mem_append, ih hnext, hcursor]
    constructor
    · rintro (hhere | ⟨before, found, after, rfl, hdraws, rfl⟩)
      · split at hhere
        · next hdraws => exact ⟨[], character, printed, rfl, hdraws, List.mem_singleton.mp hhere⟩
        · simp at hhere
      · exact ⟨character :: before, found, after, rfl, hdraws, rfl⟩
    · rintro ⟨before, found, after, heq, hdraws, rfl⟩
      cases before with
      | nil =>
        obtain ⟨rfl, rfl⟩ := List.cons.inj heq
        left
        rw [if_pos hdraws]
        exact List.mem_singleton.mpr rfl
      | cons first before =>
        obtain ⟨rfl, rfl⟩ := List.cons.inj heq
        exact .inr ⟨before, found, after, rfl, hdraws, rfl⟩

/-- Glyphs side by side, up to the first that reaches the right edge. -/
theorem cursor_of_glyphs (hwidth : ¬ 8 ∣ dimensions.width.toNat) (hheight : 0 < dimensions.height)
    {count : Nat} (hcount : count ≤ dimensions.width.toNat / 8) :
    (List.replicate count 'A'.toUInt8).foldl (cursorStep dimensions) ⟨0, 0⟩ =
      ⟨UInt32.ofNat (8 * count), 0⟩ := by
  induction count with
  | zero => rfl
  | succ count ih =>
    have hlt := dimensions.width.toNat_lt
    have hx : (UInt32.ofNat (8 * count) + cellSize.width) = UInt32.ofNat (8 * (count + 1)) := by
      apply UInt32.toNat_inj.mp
      have hcell : cellSize.width.toNat = 8 := rfl
      rw [UInt32.toNat_add, UInt32.toNat_ofNat', UInt32.toNat_ofNat', hcell]
      omega
    have hadvance : cursorAdvance cellSize 'A'.toUInt8 ⟨UInt32.ofNat (8 * count), 0⟩ =
        ⟨UInt32.ofNat (8 * (count + 1)), 0⟩ := by
      rw [← hx]
      rfl
    have hright : ¬ UInt32.ofNat (8 * (count + 1)) ≥ dimensions.width := by
      rw [ge_iff_le, UInt32.not_le, UInt32.lt_iff_toNat_lt, UInt32.toNat_ofNat']
      omega
    rw [List.replicate_succ', List.foldl_append, ih (Nat.le_of_succ_le hcount)]
    show cursorStep dimensions ⟨UInt32.ofNat (8 * count), 0⟩ 'A'.toUInt8 = _
    unfold cursorStep cursorNext cursorWrap
    rw [hadvance, if_neg hright, if_neg (UInt32.not_le.mpr hheight)]

/-- Newlines, up to the last row that starts on the screen. -/
theorem cursor_of_newlines (hheight : ¬ 16 ∣ dimensions.height.toNat) (hwidth : 0 < dimensions.width)
    {count : Nat} (hcount : count ≤ dimensions.height.toNat / 16) :
    (List.replicate count '\n'.toUInt8).foldl (cursorStep dimensions) ⟨0, 0⟩ =
      ⟨0, UInt32.ofNat (16 * count)⟩ := by
  induction count with
  | zero => rfl
  | succ count ih =>
    have hlt := dimensions.height.toNat_lt
    have hy : (UInt32.ofNat (16 * count) + cellSize.height) = UInt32.ofNat (16 * (count + 1)) := by
      apply UInt32.toNat_inj.mp
      have hcell : cellSize.height.toNat = 16 := rfl
      rw [UInt32.toNat_add, UInt32.toNat_ofNat', UInt32.toNat_ofNat', hcell]
      omega
    have hadvance : cursorAdvance cellSize '\n'.toUInt8 ⟨0, UInt32.ofNat (16 * count)⟩ =
        ⟨0, UInt32.ofNat (16 * (count + 1))⟩ := by
      rw [← hy]
      rfl
    have hbottom : ¬ UInt32.ofNat (16 * (count + 1)) ≥ dimensions.height := by
      rw [ge_iff_le, UInt32.not_le, UInt32.lt_iff_toNat_lt, UInt32.toNat_ofNat']
      omega
    rw [List.replicate_succ', List.foldl_append, ih (Nat.le_of_succ_le hcount)]
    show cursorStep dimensions ⟨0, UInt32.ofNat (16 * count)⟩ '\n'.toUInt8 = _
    unfold cursorStep cursorNext cursorWrap
    rw [hadvance, if_neg (UInt32.not_le.mpr hwidth), if_neg hbottom]

end Glyphs

/-- Every glyph of every text is fully visible exactly on the screens that are a whole
number of cells in both directions. -/
theorem glyphs_visible_iff (vgaFont : Nat → UInt8) (context : IOGraphicsContext) (color : UInt32)
    (console : IOConsole) (hwidth : 8 ≤ context.dimensions.width)
    (hheight : 16 ≤ context.dimensions.height) :
    (∀ printed : List UInt8, (∀ character ∈ printed, IsText character) → ∀ point ∈
      glyphPositions (ioConsoleClear color (ioConsoleInit vgaFont context console)) printed,
        GlyphVisible context.dimensions point) ↔
      8 ∣ context.dimensions.width.toNat ∧ 16 ∣ context.dimensions.height.toNat := by
  obtain ⟨hscreen, hcursor⟩ := hasScreen_init vgaFont context color console
  have hwidth' : 8 ≤ context.dimensions.width.toNat := UInt32.le_iff_toNat_le.mp hwidth
  have hheight' : 16 ≤ context.dimensions.height.toNat := UInt32.le_iff_toNat_le.mp hheight
  have hwidthPos : 0 < context.dimensions.width := UInt32.lt_iff_toNat_lt.mpr (by
    show 0 < context.dimensions.width.toNat
    omega)
  have hheightPos : 0 < context.dimensions.height := UInt32.lt_iff_toNat_lt.mpr (by
    show 0 < context.dimensions.height.toNat
    omega)
  constructor
  · intro hvisible
    -- a glyph behind enough other characters is the one that sticks out
    have hafter : ∀ (character : UInt8) (count : Nat), IsText character → GlyphVisible context.dimensions
        ((List.replicate count character).foldl (cursorStep context.dimensions) ⟨0, 0⟩) := by
      intro character count htext
      apply hvisible (List.replicate count character ++ ['A'.toUInt8])
      · intro found hfound
        rcases List.mem_append.mp hfound with hfound | hfound
        · rw [List.eq_of_mem_replicate hfound]
          exact htext
        · rw [List.mem_singleton.mp hfound]
          decide
      · rw [mem_glyphPositions_iff hscreen, hcursor]
        exact ⟨_, 'A'.toUInt8, [], rfl, by decide, rfl⟩
    constructor
    · by_contra hrest
      have hright := (hafter 'A'.toUInt8 (context.dimensions.width.toNat / 8) (by decide)).1
      rw [cursor_of_glyphs hrest hheightPos (Nat.le_refl _)] at hright
      have := context.dimensions.width.toNat_lt
      simp only [UInt32.toNat_ofNat'] at hright
      omega
    · by_contra hrest
      have hbottom := (hafter '\n'.toUInt8 (context.dimensions.height.toNat / 16) (by decide)).2
      rw [cursor_of_newlines hrest hwidthPos (Nat.le_refl _)] at hbottom
      have := context.dimensions.height.toNat_lt
      simp only [UInt32.toNat_ofNat'] at hbottom
      omega
  · rintro ⟨hcolumns, hrows⟩ printed - point hpoint
    obtain ⟨before, character, after, -, -, rfl⟩ := (mem_glyphPositions_iff hscreen).mp hpoint
    rw [hcursor]
    have horigin : OnCell context.dimensions ⟨0, 0⟩ := onCell_origin (by omega) (by omega)
    obtain ⟨hx, hy, hxdvd, hydvd⟩ := horigin.steps before
    exact ⟨by omega, by omega⟩

/-- A screen of one and a half columns. -/
def narrowScreen : IOGraphicsContext := ⟨some fun _ => 0, ⟨12, 16⟩, 12⟩

/-- A screen of two columns and two rows. -/
def twoCellScreen : IOGraphicsContext := ⟨some fun _ => 0, ⟨16, 32⟩, 16⟩

theorem glyphs_visible_twoCellScreen :
    (∀ printed : List UInt8, (∀ character ∈ printed, IsText character) → ∀ point ∈
      glyphPositions (ioConsoleClear 0 (ioConsoleInit (fun _ => 0) twoCellScreen serialConsole)) printed,
        GlyphVisible twoCellScreen.dimensions point) ↔
      8 ∣ twoCellScreen.dimensions.width.toNat ∧ 16 ∣ twoCellScreen.dimensions.height.toNat :=
  glyphs_visible_iff (fun _ => 0) twoCellScreen 0 serialConsole (by decide) (by decide)

/-- The second of two glyphs sticks out of the narrow screen. -/
theorem glyphs_not_visible : ¬ ∀ printed : List UInt8, (∀ character ∈ printed, IsText character) →
    ∀ point ∈ glyphPositions (ioConsoleClear 0 (ioConsoleInit (fun _ => 0) narrowScreen serialConsole))
      printed, GlyphVisible narrowScreen.dimensions point := by
  intro hvisible
  obtain ⟨hscreen, hcursor⟩ := hasScreen_init (fun _ => 0) narrowScreen 0 serialConsole
  have htext : ∀ character ∈ literal ['A', 'B'], IsText character :=
    List.all_iff_forall_prop.mp (by decide)
  have hright := (hvisible (literal ['A', 'B']) htext ⟨8, 0⟩ (by
    rw [mem_glyphPositions_iff hscreen, hcursor]
    exact ⟨literal ['A'], 'B'.toUInt8, [], rfl, by decide, by decide⟩)).1
  exact absurd hright (by decide)

/-! ## Section 4: Erasing -/

/-- Printing this character clears the screen. -/
def ClearsScreen (console : IOConsole) (character : UInt8) : Prop :=
  ∃ context, console.context = some context ∧ context.dimensions.height ≤
    (cursorNext console.font.size context.dimensions character console.cursorPosition).y

/-- `"\b \b"` -/
def eraseSequence : List UInt8 := literal ['\x08', ' ', '\x08']

/-- What is visible of the cell at this position has the background's colour. The pixels are
where the drawing routines look for them (`cellBlank_iff`). -/
def CellBlank (console : IOConsole) (point : IOGraphicsPoint) : Prop :=
  ∀ context framebuffer, console.context = some context → context.framebuffer = some framebuffer →
    ∀ x y : Nat, x < 8 → y < 16 → point.x.toNat + x < context.dimensions.width.toNat →
      point.y.toNat + y < context.dimensions.height.toNat →
      framebuffer (((point.y + UInt32.ofNat y) * context.pixelsPerScanLine + point.x).toNat + x) =
        console.backgroundColor

/-- A character and then its erase sequence leave the cursor where it was, and its cell blank. -/
def Undone (console : IOConsole) (character : UInt8) : Prop :=
  (console.putAll (character :: eraseSequence)).cursorPosition = console.cursorPosition ∧
    CellBlank (console.putAll (character :: eraseSequence)) console.cursorPosition

section Erase

variable {console : IOConsole} {dimensions : IOGraphicsSize} {cursor : IOGraphicsPoint}

/-- With fewer than 2^32 pixels, these are the pixels of the screen that lie in the cell. -/
theorem cellBlank_iff {point : IOGraphicsPoint} {context : IOGraphicsContext}
    {framebuffer : Nat → UInt32} (hcontext : console.context = some context)
    (hbuffer : context.framebuffer = some framebuffer)
    (hframe : context.dimensions.height.toNat * context.pixelsPerScanLine.toNat < 2 ^ 32)
    (hpitch : context.dimensions.width.toNat ≤ context.pixelsPerScanLine.toNat) :
    CellBlank console point ↔ ∀ x y index, InRectangle point cellSize x y →
      ScreenPixel context x y index → framebuffer index = console.backgroundColor := by
  have hindex : ∀ {x y : Nat}, point.x.toNat + x < context.dimensions.width.toNat →
      point.y.toNat + y < context.dimensions.height.toNat →
      ((point.y + UInt32.ofNat y) * context.pixelsPerScanLine + point.x).toNat + x =
        (point.y.toNat + y) * context.pixelsPerScanLine.toNat + (point.x.toNat + x) := by
    intro x y hx hy
    rw [row_toNat hframe hpitch (UInt32.lt_iff_toNat_lt.mpr (by omega)) hy, Nat.add_assoc]
  have hwidth : cellSize.width.toNat = 8 := rfl
  have hheight : cellSize.height.toNat = 16 := rfl
  constructor
  · rintro hblank x y _ ⟨hleft, hright, htop, hbottom⟩ ⟨hx, hy, rfl⟩
    obtain ⟨i, rfl⟩ := Nat.exists_eq_add_of_le hleft
    obtain ⟨j, rfl⟩ := Nat.exists_eq_add_of_le htop
    rw [← hindex hx hy]
    exact hblank context framebuffer hcontext hbuffer i j (by omega) (by omega) hx hy
  · intro hpixels context' framebuffer' hcontext' hbuffer' x y hx8 hy16 hx hy
    obtain rfl := Option.some.inj (hcontext.symm.trans hcontext')
    obtain rfl := Option.some.inj (hbuffer.symm.trans hbuffer')
    rw [hindex hx hy]
    exact hpixels _ _ _ ⟨by omega, by omega, by omega, by omega⟩ ⟨hx, hy, rfl⟩

/-- Pixels that are all stored with one colour have that colour. -/
theorem foldl_store_eq {stores : List PixelStore} {framebuffer : Nat → UInt32} {index : Nat}
    {color : UInt32} (hcolor : ∀ store ∈ stores, store.color = color)
    (hindex : ∃ store ∈ stores, store.index = index) :
    stores.foldl (fun framebuffer store => Function.update framebuffer store.index store.color)
      framebuffer index = color := by
  induction stores using List.reverseRecOn with
  | nil => simp at hindex
  | append_singleton stores store ih =>
    rw [List.foldl_append, List.foldl_cons, List.foldl_nil]
    by_cases hhere : store.index = index
    · rw [hhere, Function.update_self]
      exact hcolor store (by simp)
    · rw [Function.update_of_ne (Ne.symm hhere)]
      apply ih (fun other hother => hcolor other (by simp [hother]))
      obtain ⟨other, hother, hother'⟩ := hindex
      rcases List.mem_append.mp hother with hmem | hmem
      · exact ⟨other, hmem, hother'⟩
      · rw [List.mem_singleton.mp hmem] at hother'
        exact absurd hother' hhere

/-- A backspace to a cell on the screen blanks it. -/
theorem cellBlank_backspace (h : HasScreen console dimensions)
    (hcursor : cursorAdvance cellSize '\x08'.toUInt8 console.cursorPosition = cursor)
    (hx : cursor.x < dimensions.width) (hy : cursor.y < dimensions.height) :
    CellBlank (ioConsolePutcharacter console '\x08'.toUInt8) cursor := by
  obtain ⟨⟨context, hcontext, rfl⟩, hcell⟩ := h
  have hnext : cursorNext cellSize context.dimensions '\x08'.toUInt8 console.cursorPosition = cursor := by
    unfold cursorNext cursorWrap
    rw [hcursor, if_neg (UInt32.not_le.mpr hx)]
  have hput : ioConsolePutcharacter console '\x08'.toUInt8 = { console with
      serial := console.serial ++ ['\x08'.toUInt8]
      context := some (context.store
        (ioGraphicsDrawRectangle context cursor cellSize console.backgroundColor))
      cursorPosition := cursor } := by
    unfold ioConsolePutcharacter
    dsimp only
    rw [hcontext, hcell]
    dsimp only
    rw [hnext, if_neg (UInt32.not_le.mpr hy)]
    unfold characterStores
    rw [if_neg (by decide), if_pos rfl]
    dsimp only
    rw [hcell, hcursor]
  rw [hput]
  intro drawn framebuffer hdrawn hframebuffer x y hx8 hy16 hxw hyh
  cases hdrawn
  obtain ⟨before, hbefore, rfl⟩ := Option.map_eq_some_iff.mp hframebuffer
  have hbuffer : context.framebuffer ≠ none := by
    rw [hbefore]
    simp
  have hwidth : cellSize.width.toNat = 8 := rfl
  have hheight : cellSize.height.toNat = 16 := rfl
  -- the visible part of the cell lies in front of the clipped extents
  have hin : ∀ {start extent limit : UInt32} {i : Nat}, start < limit → i < extent.toNat →
      start.toNat + i < limit.toNat → i < (clipExtent start extent limit).toNat := by
    intro start extent limit i hstart hi hlimit
    by_cases hwrap : start.toNat + extent.toNat < 2 ^ 32
    · rw [clipExtent_eq_min hstart hwrap]
      omega
    · rwa [clipExtent_of_wrap hstart (Nat.le_of_not_lt hwrap)]
  apply foldl_store_eq
  · intro store hstore
    obtain ⟨x, y, -, -, hcolor, -⟩ := (mem_drawClipped hbuffer hx hy).mp hstore
    exact (Option.some.inj hcolor).symm
  · refine ⟨⟨_, console.backgroundColor⟩, (mem_drawClipped hbuffer hx hy).mpr
      ⟨x, y, hin hx (by omega) hxw, hin hy (by omega) hyh, rfl, rfl⟩, rfl⟩

/-- A glyph that is not the last of its row. -/
theorem cursorStep_glyph {character : UInt8} (hdraws : DrawsGlyph character)
    (hx : cursor.x + 8 < dimensions.width) (hy : cursor.y < dimensions.height) :
    cursorStep dimensions cursor character = ⟨cursor.x + 8, cursor.y⟩ := by
  have hadvance : cursorAdvance cellSize character cursor = ⟨cursor.x + 8, cursor.y⟩ := by
    unfold cursorAdvance
    rw [if_neg hdraws.1, if_neg hdraws.2.1, if_neg hdraws.2.2]
    rfl
  unfold cursorStep cursorNext cursorWrap
  rw [hadvance, if_neg (UInt32.not_le.mpr hx), if_neg (UInt32.not_le.mpr hy)]

/-- A backspace that stays in its row. -/
theorem cursorStep_backspace {x y : UInt32} (hx : x < dimensions.width) (hy : y < dimensions.height) :
    cursorStep dimensions ⟨x + 8, y⟩ '\x08'.toUInt8 = ⟨x, y⟩ := by
  have hadvance : cursorAdvance cellSize '\x08'.toUInt8 ⟨x + 8, y⟩ = ⟨x, y⟩ := by
    show (⟨x + 8 - 8, y⟩ : IOGraphicsPoint) = ⟨x, y⟩
    rw [UInt32.add_sub_cancel]
  unfold cursorStep cursorNext cursorWrap
  rw [hadvance, if_neg (UInt32.not_le.mpr hx), if_neg (UInt32.not_le.mpr hy)]

/-- A backspace whose column wraps goes on a line instead. -/
theorem cursorStep_backspace_wrap (hx : dimensions.width ≤ cursor.x - 8) :
    cursorStep dimensions cursor '\x08'.toUInt8 =
      if cursor.y + 16 ≥ dimensions.height then ⟨0, 0⟩ else ⟨0, cursor.y + 16⟩ := by
  have hadvance : cursorAdvance cellSize '\x08'.toUInt8 cursor = ⟨cursor.x - 8, cursor.y⟩ := rfl
  unfold cursorStep cursorNext cursorWrap
  rw [hadvance, if_pos hx]
  rfl

/-- A backspace and a space come back to the cell behind a visible one. -/
theorem backspace_space {x y : UInt32} (hx : x < dimensions.width) (hright : x + 8 < dimensions.width)
    (hy : y < dimensions.height) :
    (literal ['\x08', ' ']).foldl (cursorStep dimensions) ⟨x + 8, y⟩ = ⟨x + 8, y⟩ := by
  have hspace : cursorStep dimensions ⟨x, y⟩ ' '.toUInt8 = ⟨x + 8, y⟩ :=
    cursorStep_glyph (by decide) hright hy
  show cursorStep dimensions (cursorStep dimensions ⟨x + 8, y⟩ '\x08'.toUInt8) ' '.toUInt8 = _
  rw [cursorStep_backspace hx hy, hspace]

/-- If the column of the backspace wraps, they end in the second column, a line further down or
in the first line. -/
theorem backspace_space_wrap (hx : dimensions.width ≤ cursor.x - 8) (hcolumns : 8 < dimensions.width)
    (hrows : 0 < dimensions.height) :
    (literal ['\x08', ' ']).foldl (cursorStep dimensions) cursor =
      if cursor.y + 16 ≥ dimensions.height then ⟨0 + 8, 0⟩ else ⟨0 + 8, cursor.y + 16⟩ := by
  have hspace : ∀ y : UInt32, y < dimensions.height →
      cursorStep dimensions ⟨0, y⟩ ' '.toUInt8 = ⟨0 + 8, y⟩ :=
    fun y hy => cursorStep_glyph (by decide) hcolumns hy
  show cursorStep dimensions (cursorStep dimensions cursor '\x08'.toUInt8) ' '.toUInt8 = _
  rw [cursorStep_backspace_wrap hx]
  split
  · exact hspace 0 hrows
  · next hlt => exact hspace _ (UInt32.not_le.mp hlt)

theorem eraseSequence_foldl : eraseSequence.foldl (cursorStep dimensions) cursor =
    cursorStep dimensions ((literal ['\x08', ' ']).foldl (cursorStep dimensions) cursor)
      '\x08'.toUInt8 := rfl

/-- Erasing from the cell behind a visible one comes back to it. -/
theorem erase_back {x y : UInt32} (hx : x < dimensions.width) (hright : x + 8 < dimensions.width)
    (hy : y < dimensions.height) :
    eraseSequence.foldl (cursorStep dimensions) ⟨x + 8, y⟩ = ⟨x, y⟩ := by
  rw [eraseSequence_foldl, backspace_space hx hright hy, cursorStep_backspace hx hy]

theorem erase_wrap (hx : dimensions.width ≤ cursor.x - 8) (hcolumns : 8 < dimensions.width)
    (hrows : 0 < dimensions.height) :
    eraseSequence.foldl (cursorStep dimensions) cursor =
      if cursor.y + 16 ≥ dimensions.height then ⟨0, 0⟩ else ⟨0, cursor.y + 16⟩ := by
  have hfirst : 0 < dimensions.width := UInt32.lt_trans (by decide) hcolumns
  rw [eraseSequence_foldl, backspace_space_wrap hx hcolumns hrows]
  split
  · exact cursorStep_backspace hfirst hrows
  · next hlt => exact cursorStep_backspace hfirst (UInt32.not_le.mp hlt)

/-- The column of a backspace wraps in the first column of a screen whose width is no more than
a number of whole cells. -/
theorem width_le_wrap {extent : UInt32} (hcell : OnCell dimensions cursor) (hextent : 8 ∣ extent.toNat)
    (hright : dimensions.width ≤ cursor.x + extent) : dimensions.width ≤ (0 : UInt32) - 8 := by
  obtain ⟨-, -, hxdvd, -⟩ := hcell
  rw [UInt32.le_iff_toNat_le, UInt32.toNat_add] at hright
  rw [UInt32.le_iff_toNat_le]
  have hmax : ((0 : UInt32) - 8).toNat = 2 ^ 32 - 8 := rfl
  omega

/-- Behind a character that has ended its line the cursor comes back to the corner of the screen
only, when erasing clears it. -/
theorem erase_next_line_iff {extent : UInt32} (hcell : OnCell dimensions cursor)
    (hcolumns : 8 < dimensions.width) (hrows : 0 < dimensions.height) (hextent : 8 ∣ extent.toNat)
    (hright : dimensions.width ≤ cursor.x + extent) :
    eraseSequence.foldl (cursorStep dimensions) ⟨0, cursor.y + 16⟩ = cursor ↔
      cursor = ⟨0, 0⟩ ∧ dimensions.height ≤ 32 := by
  have hlast : dimensions.width ≤ (0 : UInt32) - 8 := width_le_wrap hcell hextent hright
  have hnext : cursor.y + 16 + 16 = cursor.y + 32 := by
    rw [UInt32.add_assoc]
    rfl
  rw [erase_wrap hlast hcolumns hrows]
  simp only [hnext]
  constructor
  · intro heq
    split at heq
    · next hbottom =>
      rw [← heq] at hbottom ⊢
      exact ⟨rfl, hbottom⟩
    · have hy := congrArg IOGraphicsPoint.y heq
      rw [UInt32.add_eq_left] at hy
      exact absurd hy (by decide)
  · rintro ⟨rfl, hbottom⟩
    exact if_pos hbottom

/-- A tab is four cells wide, and one of them is erased. -/
theorem erase_tab_ne (hright : cursor.x + 24 + 8 < dimensions.width) (hy : cursor.y < dimensions.height)
    (hcolumns : 8 < dimensions.width) :
    eraseSequence.foldl (cursorStep dimensions) ⟨cursor.x + 24 + 8, cursor.y⟩ ≠ cursor := by
  intro heq
  by_cases hback : cursor.x + 24 < dimensions.width
  · rw [erase_back hback hright hy] at heq
    have hx : cursor.x + 24 = cursor.x := congrArg IOGraphicsPoint.x heq
    have hx' := congrArg UInt32.toNat hx
    have htab : (24 : UInt32).toNat = 24 := rfl
    rw [UInt32.toNat_add, htab] at hx'
    have := cursor.x.toNat_lt
    omega
  · -- the tab ended in the first column, and the backspace leaves the screen
    have hleft : dimensions.width ≤ cursor.x + 24 + 8 - 8 := by
      have hcell : cursor.x + 24 + 8 - 8 = cursor.x + 24 := UInt32.add_sub_cancel _ _
      rw [hcell]
      exact UInt32.not_lt.mp hback
    rw [@erase_wrap dimensions ⟨cursor.x + 24 + 8, cursor.y⟩ hleft hcolumns
      (UInt32.lt_of_le_of_lt UInt32.zero_le hy)] at heq
    have hx : cursor.x = 0 := by
      have hx := congrArg IOGraphicsPoint.x heq
      split at hx <;> exact hx.symm
    rw [hx] at hback hright
    exact hback (UInt32.lt_trans (by decide) hright)

/-- The cursor comes back from a glyph that is not the last of its row, and from nowhere else
but the corner of a screen so small that erasing clears it. -/
theorem erase_cursor_iff {character : UInt8} (hcell : OnCell dimensions cursor)
    (hwidth : 16 ≤ dimensions.width) (hheight : 32 ≤ dimensions.height)
    (hnewline : character ≠ '\n'.toUInt8) (hbackspace : character ≠ '\x08'.toUInt8)
    (hkept : (cursorNext cellSize dimensions character cursor).y < dimensions.height) :
    (character :: eraseSequence).foldl (cursorStep dimensions) cursor = cursor ↔
      (character ≠ '\t'.toUInt8 ∧ cursor.x + 8 < dimensions.width) ∨
      (character = '\t'.toUInt8 ∧ cursor = ⟨0, 0⟩ ∧ dimensions.width ≤ 32 ∧
        dimensions.height ≤ 32) := by
  have hx : cursor.x < dimensions.width := UInt32.lt_iff_toNat_lt.mpr hcell.x_lt
  have hy : cursor.y < dimensions.height := UInt32.lt_iff_toNat_lt.mpr hcell.y_lt
  have hcolumns : 8 < dimensions.width := UInt32.lt_of_lt_of_le (by decide) hwidth
  have hrows : 0 < dimensions.height := UInt32.lt_of_lt_of_le (by decide) hheight
  have hstep : cursorStep dimensions cursor character =
      cursorWrap cellSize dimensions (cursorAdvance cellSize character cursor) := by
    unfold cursorStep
    rw [if_neg (UInt32.not_le.mpr hkept)]
    rfl
  rw [List.foldl_cons, hstep]
  -- a tab advances by four cells and a glyph by one, and either may leave the row
  by_cases htab : character = '\t'.toUInt8
  · have hadvance : cursorAdvance cellSize character cursor = ⟨cursor.x + 32, cursor.y⟩ := by
      rw [htab]
      rfl
    rw [hadvance]
    unfold cursorWrap
    by_cases hright : cursor.x + 32 ≥ dimensions.width
    · rw [if_pos hright]
      refine (erase_next_line_iff hcell hcolumns hrows (by decide) hright).trans ⟨?_, ?_⟩
      · rintro ⟨rfl, hbottom⟩
        exact .inr ⟨htab, rfl, by simpa using hright, hbottom⟩
      · rintro (⟨hne, -⟩ | ⟨-, hcursor, -, hbottom⟩)
        · exact absurd htab hne
        · exact ⟨hcursor, hbottom⟩
    · have hfour : cursor.x + 32 = cursor.x + 24 + 8 := by
        rw [UInt32.add_assoc]
        rfl
      rw [if_neg hright, hfour]
      -- one backspace does not take back four cells
      apply iff_of_false
      · exact erase_tab_ne (hfour ▸ UInt32.not_le.mp hright) hy hcolumns
      · rintro (⟨hne, -⟩ | ⟨-, rfl, hright', -⟩)
        · exact hne htab
        · exact hright (by simpa using hright')
  · have hadvance : cursorAdvance cellSize character cursor = ⟨cursor.x + 8, cursor.y⟩ := by
      unfold cursorAdvance
      rw [if_neg hnewline, if_neg htab, if_neg hbackspace]
      rfl
    rw [hadvance]
    unfold cursorWrap
    by_cases hright : cursor.x + 8 < dimensions.width
    · rw [if_neg (UInt32.not_le.mpr hright)]
      exact iff_of_true (erase_back hx hright hy) (.inl ⟨htab, hright⟩)
    · rw [if_pos (UInt32.not_lt.mp hright)]
      refine (erase_next_line_iff hcell hcolumns hrows (by decide) (UInt32.not_lt.mp hright)).trans
        (iff_of_false ?_ ?_)
      · rintro ⟨rfl, -⟩
        exact hright (by simpa using hcolumns)
      · rintro (⟨-, hlt⟩ | ⟨hc, -⟩)
        · exact hright hlt
        · exact htab hc

/-- In front of the last backspace the cursor is in the next cell. -/
theorem erase_last {character : UInt8} (hcell : OnCell dimensions cursor)
    (hwidth : 16 ≤ dimensions.width) (hheight : 32 ≤ dimensions.height)
    (hnewline : character ≠ '\n'.toUInt8) (hbackspace : character ≠ '\x08'.toUInt8)
    (hcond : (character ≠ '\t'.toUInt8 ∧ cursor.x + 8 < dimensions.width) ∨
      (character = '\t'.toUInt8 ∧ cursor = ⟨0, 0⟩ ∧ dimensions.width ≤ 32 ∧
        dimensions.height ≤ 32)) :
    (character :: literal ['\x08', ' ']).foldl (cursorStep dimensions) cursor =
      ⟨cursor.x + 8, cursor.y⟩ := by
  have hx : cursor.x < dimensions.width := UInt32.lt_iff_toNat_lt.mpr hcell.x_lt
  have hy : cursor.y < dimensions.height := UInt32.lt_iff_toNat_lt.mpr hcell.y_lt
  rw [List.foldl_cons]
  rcases hcond with ⟨htab, hright⟩ | ⟨rfl, rfl, hright, hbottom⟩
  · rw [cursorStep_glyph ⟨hnewline, htab, hbackspace⟩ hright hy, backspace_space hx hright hy]
  · have hcolumns : 8 < dimensions.width := UInt32.lt_of_lt_of_le (by decide) hwidth
    have hstep : cursorStep dimensions ⟨0, 0⟩ '\t'.toUInt8 = ⟨0, 16⟩ := by
      have hnext : cursorNext cellSize dimensions '\t'.toUInt8 ⟨0, 0⟩ = ⟨0, 16⟩ := if_pos hright
      unfold cursorStep
      rw [hnext, if_neg (UInt32.not_le.mpr (UInt32.lt_of_lt_of_le (by decide) hheight))]
    have hlast : dimensions.width ≤ (0 : UInt32) - 8 := UInt32.le_trans hright (by decide)
    have hclears : (16 : UInt32) + 16 ≥ dimensions.height := UInt32.le_trans hbottom (by decide)
    rw [hstep, @backspace_space_wrap dimensions ⟨0, 16⟩ hlast hcolumns hy]
    exact if_pos hclears

end Erase

/-- A character that the console echoes without clearing the screen is undone exactly when it
is not a tab and not drawn in the last column, or erasing it clears a screen of two rows. -/
theorem erase_iff (vgaFont : Nat → UInt8) (context : IOGraphicsContext) (color : UInt32)
    (console : IOConsole) (hwidth : 16 ≤ context.dimensions.width)
    (hheight : 32 ≤ context.dimensions.height) (printed : List UInt8) (character : UInt8)
    (hnewline : character ≠ '\n'.toUInt8) (hbackspace : character ≠ '\x08'.toUInt8)
    (hkept : ¬ ClearsScreen
      ((ioConsoleClear color (ioConsoleInit vgaFont context console)).putAll printed) character) :
    Undone ((ioConsoleClear color (ioConsoleInit vgaFont context console)).putAll printed) character ↔
      (character ≠ '\t'.toUInt8 ∧
        ((ioConsoleClear color (ioConsoleInit vgaFont context console)).putAll
          printed).cursorPosition.x + 8 < context.dimensions.width) ∨
      (character = '\t'.toUInt8 ∧
        ((ioConsoleClear color (ioConsoleInit vgaFont context console)).putAll
          printed).cursorPosition = ⟨0, 0⟩ ∧
        context.dimensions.width ≤ 32 ∧ context.dimensions.height ≤ 32) := by
  obtain ⟨hstart, horigin⟩ := hasScreen_init vgaFont context color console
  obtain ⟨hscreen, hcursor⟩ := hstart.putAll printed
  have hcell : OnCell context.dimensions
      ((ioConsoleClear color (ioConsoleInit vgaFont context console)).putAll printed).cursorPosition := by
    rw [hcursor, horigin]
    apply OnCell.steps
    rw [UInt32.le_iff_toNat_le] at hwidth hheight
    exact onCell_origin (Nat.lt_of_lt_of_le (by decide) hwidth) (Nat.lt_of_lt_of_le (by decide) hheight)
  generalize (ioConsoleClear color (ioConsoleInit vgaFont context console)).putAll printed = screen at *
  have hnext : (cursorNext cellSize context.dimensions character screen.cursorPosition).y <
      context.dimensions.height := by
    obtain ⟨⟨drawn, hdrawn, hdimensions⟩, hsize⟩ := hscreen
    by_contra hclears
    exact hkept ⟨drawn, hdrawn, by rw [hsize, hdimensions]; exact UInt32.not_lt.mp hclears⟩
  obtain ⟨-, hreturn⟩ := hscreen.putAll (character :: eraseSequence)
  have hiff := erase_cursor_iff hcell hwidth hheight hnewline hbackspace hnext
  unfold Undone
  rw [hreturn, hiff, and_iff_left_iff_imp]
  intro hcond
  -- the last backspace blanks the cell that it comes to
  obtain ⟨hthree, hbefore⟩ := hscreen.putAll (character :: literal ['\x08', ' '])
  rw [erase_last hcell hwidth hheight hnewline hbackspace hcond] at hbefore
  have hsplit : screen.putAll (character :: eraseSequence) = ioConsolePutcharacter
      (screen.putAll (character :: literal ['\x08', ' '])) '\x08'.toUInt8 := rfl
  rw [hsplit]
  apply cellBlank_backspace hthree _ (UInt32.lt_iff_toNat_lt.mpr hcell.x_lt)
    (UInt32.lt_iff_toNat_lt.mpr hcell.y_lt)
  rw [hbefore]
  show (⟨screen.cursorPosition.x + 8 - 8, screen.cursorPosition.y⟩ : IOGraphicsPoint) = _
  rw [UInt32.add_sub_cancel]

/-- On a screen of two columns the first of them can be erased. -/
theorem erase_twoCellScreen :
    Undone ((ioConsoleClear 0 (ioConsoleInit (fun _ => 0) twoCellScreen serialConsole)).putAll [])
      'A'.toUInt8 ↔
      ('A'.toUInt8 ≠ '\t'.toUInt8 ∧
        ((ioConsoleClear 0 (ioConsoleInit (fun _ => 0) twoCellScreen serialConsole)).putAll
          []).cursorPosition.x + 8 < twoCellScreen.dimensions.width) ∨
      ('A'.toUInt8 = '\t'.toUInt8 ∧
        ((ioConsoleClear 0 (ioConsoleInit (fun _ => 0) twoCellScreen serialConsole)).putAll
          []).cursorPosition = ⟨0, 0⟩ ∧
        twoCellScreen.dimensions.width ≤ 32 ∧ twoCellScreen.dimensions.height ≤ 32) := by
  refine erase_iff (fun _ => 0) twoCellScreen 0 serialConsole (by decide) (by decide) [] 'A'.toUInt8
    (by decide) (by decide) ?_
  rintro ⟨context, hcontext, hclears⟩
  cases hcontext
  exact absurd hclears (by decide)

/-- The second of two columns cannot. -/
theorem erase_last_column :
    ¬ ClearsScreen ((ioConsoleClear 0 (ioConsoleInit (fun _ => 0) twoCellScreen serialConsole)).putAll
      (literal ['A'])) 'B'.toUInt8 ∧
    ¬ Undone ((ioConsoleClear 0 (ioConsoleInit (fun _ => 0) twoCellScreen serialConsole)).putAll
      (literal ['A'])) 'B'.toUInt8 := by
  obtain ⟨hstart, horigin⟩ := hasScreen_init (fun _ => 0) twoCellScreen 0 serialConsole
  obtain ⟨hscreen, hcursor⟩ := hstart.putAll (literal ['A'])
  have hbefore : ((ioConsoleClear 0 (ioConsoleInit (fun _ => 0) twoCellScreen serialConsole)).putAll
      (literal ['A'])).cursorPosition = ⟨8, 0⟩ := by
    rw [hcursor, horigin]
    decide
  constructor
  · rintro ⟨context, hcontext, hclears⟩
    rw [hbefore, hscreen.cell_eq] at hclears
    obtain ⟨context', hcontext', hdimensions⟩ := hscreen.context_eq
    rw [hcontext] at hcontext'
    rw [Option.some.inj hcontext', hdimensions] at hclears
    exact absurd hclears (by decide)
  · rintro ⟨hreturn, -⟩
    rw [(hscreen.putAll ('B'.toUInt8 :: eraseSequence)).2, hbefore] at hreturn
    exact absurd hreturn (by decide)

end TermOS.Device
