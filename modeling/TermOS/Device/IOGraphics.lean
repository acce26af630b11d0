import Mathlib.Data.List.Basic
import Mathlib.Tactic.IntervalCases
import Mathlib.Tactic.Ring
import TermOS.Lib.Memory

/-!
# Drawing

Model of `IOGraphicsDrawImage`, `IOGraphicsDrawRectangle` and
`IOGraphicsDrawCharacter` in `kernel/src/IO/IOGraphics.c`. What a routine draws is
the list of its stores to the framebuffer, so that a pixel that is stored with the
colour it had counts as well.

## Main Theorem

* `drawing_clipped_iff` - drawing is clipped to the screen as long as the 32-bit
  sums that find the far edges do not wrap
-/

namespace TermOS.Device

/-! ## Section 1: The code -/

structure IOGraphicsPoint where
  x : UInt32
  y : UInt32
  deriving DecidableEq

structure IOGraphicsSize where
  width : UInt32
  height : UInt32
  deriving DecidableEq

/-- The framebuffer is `none` for a null pointer. -/
structure IOGraphicsContext where
  framebuffer : Option (Nat → UInt32)
  dimensions : IOGraphicsSize
  pixelsPerScanLine : UInt32

structure IOGraphicsImage where
  buffer : Nat → UInt32
  size : IOGraphicsSize

structure IOGraphicsFont where
  size : IOGraphicsSize
  baseAddress : Nat → UInt8

/-- A store to the framebuffer. -/
structure PixelStore where
  index : Nat
  color : UInt32

/-- `if (start + extent > limit) extent = limit - start;` -/
def clipExtent (start extent limit : UInt32) : UInt32 :=
  if start + extent > limit then limit - start else extent

/-- What the three routines have in common. The pixel at `x` in row `y` of what is
drawn is `none` where nothing is stored. -/
def drawClipped (context : IOGraphicsContext) (point : IOGraphicsPoint) (size : IOGraphicsSize)
    (pixel : UInt32 → UInt32 → Option UInt32) : List PixelStore :=
  if context.framebuffer.isNone then []
  else if point.x ≥ context.dimensions.width ∨ point.y ≥ context.dimensions.height then []
  else
    let drawW := clipExtent point.x size.width context.dimensions.width
    let drawH := clipExtent point.y size.height context.dimensions.height
    (List.range drawH.toNat).flatMap fun y =>
      -- the index of the row is computed in 32 bits
      let row := (point.y + UInt32.ofNat y) * context.pixelsPerScanLine + point.x
      (List.range drawW.toNat).filterMap fun x =>
        (pixel (UInt32.ofNat x) (UInt32.ofNat y)).map fun color => ⟨row.toNat + x, color⟩

/-- `kIOGraphicsTransparencyKey` -/
def kIOGraphicsTransparencyKey : UInt32 := 0xFF00FF

/-- `IOGraphicsDrawImage` -/
def ioGraphicsDrawImage (context : IOGraphicsContext) (point : IOGraphicsPoint) :
    Option IOGraphicsImage → List PixelStore
  | none => []
  | some image =>
    drawClipped context point image.size fun x y =>
      let color := image.buffer ((y * image.size.width).toNat + x.toNat)
      if color ≠ kIOGraphicsTransparencyKey then some color else none

/-- `IOGraphicsDrawRectangle` -/
def ioGraphicsDrawRectangle (context : IOGraphicsContext) (point : IOGraphicsPoint)
    (size : IOGraphicsSize) (color : UInt32) : List PixelStore :=
  drawClipped context point size fun _ _ => some color

/-- `IOGraphicsDrawCharacter` -/
def ioGraphicsDrawCharacter (context : IOGraphicsContext) (point : IOGraphicsPoint) (c : UInt8)
    (color : UInt32) (font : IOGraphicsFont) : List PixelStore :=
  drawClipped context point font.size fun x y =>
    let bitmapRow := font.baseAddress (c.toUInt32 * font.size.height + y).toNat
    if bitmapRow.toUInt32 &&& (1 <<< (7 - x)) ≠ 0 then some color else none

/-- The framebuffer after some stores. -/
def IOGraphicsContext.store (context : IOGraphicsContext) (stores : List PixelStore) :
    IOGraphicsContext :=
  { context with
    framebuffer := context.framebuffer.map fun framebuffer =>
      stores.foldl (fun framebuffer store => Function.update framebuffer store.index store.color)
        framebuffer }

/-! ## Section 2: What is visible -/

/-- The index belongs to the pixel at `x` in row `y` of the screen. -/
structure ScreenPixel (context : IOGraphicsContext) (x y index : Nat) : Prop where
  x_lt : x < context.dimensions.width.toNat
  y_lt : y < context.dimensions.height.toNat
  index_eq : index = y * context.pixelsPerScanLine.toNat + x

/-- Nothing is stored outside the screen. -/
def Clipped (context : IOGraphicsContext) (stores : List PixelStore) : Prop :=
  ∀ store ∈ stores, ∃ x y, ScreenPixel context x y store.index

/-- The rectangle, in exact integers. -/
structure InRectangle (point : IOGraphicsPoint) (size : IOGraphicsSize) (x y : Nat) : Prop where
  left : point.x.toNat ≤ x
  right : x < point.x.toNat + size.width.toNat
  top : point.y.toNat ≤ y
  bottom : y < point.y.toNat + size.height.toNat

/-- The stores fill what the rectangle and the screen have in common, and nothing else. -/
def FillsIntersection (context : IOGraphicsContext) (point : IOGraphicsPoint) (size : IOGraphicsSize)
    (color : UInt32) (stores : List PixelStore) : Prop :=
  ∀ index c, ⟨index, c⟩ ∈ stores ↔
    c = color ∧ ∃ x y, InRectangle point size x y ∧ ScreenPixel context x y index

/-- The far edges of what is drawn are below 2^32, or there is nothing to draw. -/
def Fits (context : IOGraphicsContext) (point : IOGraphicsPoint) (size : IOGraphicsSize) : Prop :=
  context.dimensions.width ≤ point.x ∨ context.dimensions.height ≤ point.y ∨
    size.width = 0 ∨ size.height = 0 ∨
    (point.x.toNat + size.width.toNat < 2 ^ 32 ∧ point.y.toNat + size.height.toNat < 2 ^ 32)

section Clipping

variable {context : IOGraphicsContext} {point : IOGraphicsPoint} {size : IOGraphicsSize}
  {pixel : UInt32 → UInt32 → Option UInt32}

/-- A far edge that does not wrap is clipped to the edge of the screen. -/
theorem clipExtent_eq_min {start extent limit : UInt32} (hstart : start < limit)
    (h : start.toNat + extent.toNat < 2 ^ 32) :
    (clipExtent start extent limit).toNat = min extent.toNat (limit.toNat - start.toNat) := by
  rw [UInt32.lt_iff_toNat_lt] at hstart
  have hsum : (start + extent).toNat = start.toNat + extent.toNat := by
    rw [UInt32.toNat_add, Nat.mod_eq_of_lt h]
  have hsub : (limit - start).toNat = limit.toNat - start.toNat :=
    UInt32.toNat_sub_of_le _ _ (UInt32.le_iff_toNat_le.mpr (Nat.le_of_lt hstart))
  unfold clipExtent
  split
  · next hgt =>
    rw [gt_iff_lt, UInt32.lt_iff_toNat_lt, hsum] at hgt
    omega
  · next hle =>
    rw [gt_iff_lt, UInt32.lt_iff_toNat_lt, hsum] at hle
    omega

/-- A far edge that wraps is taken for one on the screen. -/
theorem clipExtent_of_wrap {start extent limit : UInt32} (hstart : start < limit)
    (h : 2 ^ 32 ≤ start.toNat + extent.toNat) :
    clipExtent start extent limit = extent := by
  rw [UInt32.lt_iff_toNat_lt] at hstart
  have hextent := extent.toNat_lt
  have hlimit := limit.toNat_lt
  have hsum : (start + extent).toNat = start.toNat + extent.toNat - 2 ^ 32 := by
    rw [UInt32.toNat_add]
    omega
  apply if_neg
  rw [gt_iff_lt, UInt32.lt_iff_toNat_lt, hsum]
  omega

theorem clipExtent_pos {start extent limit : UInt32} (hstart : start < limit) (h : extent ≠ 0) :
    0 < (clipExtent start extent limit).toNat := by
  have hpos : 0 < extent.toNat := Nat.pos_of_ne_zero fun hzero => h (UInt32.toNat_inj.mp hzero)
  rw [UInt32.lt_iff_toNat_lt] at hstart
  unfold clipExtent
  split
  · rw [UInt32.toNat_sub_of_le _ _ (UInt32.le_iff_toNat_le.mpr (Nat.le_of_lt hstart))]
    omega
  · exact hpos

theorem clipExtent_le {start extent limit : UInt32} (hstart : start < limit) :
    (clipExtent start extent limit).toNat ≤ extent.toNat := by
  by_cases h : start.toNat + extent.toNat < 2 ^ 32
  · rw [clipExtent_eq_min hstart h]
    exact Nat.min_le_left _ _
  · rw [clipExtent_of_wrap hstart (Nat.le_of_not_lt h)]

/-- Rows on the screen have their exact index. -/
theorem row_toNat {y : Nat}
    (hframe : context.dimensions.height.toNat * context.pixelsPerScanLine.toNat < 2 ^ 32)
    (hpitch : context.dimensions.width.toNat ≤ context.pixelsPerScanLine.toNat)
    (hx : point.x < context.dimensions.width)
    (hy : point.y.toNat + y < context.dimensions.height.toNat) :
    ((point.y + UInt32.ofNat y) * context.pixelsPerScanLine + point.x).toNat =
      (point.y.toNat + y) * context.pixelsPerScanLine.toNat + point.x.toNat := by
  rw [UInt32.lt_iff_toNat_lt] at hx
  have hheight := context.dimensions.height.toNat_lt
  have hrow : (point.y.toNat + y + 1) * context.pixelsPerScanLine.toNat ≤
      context.dimensions.height.toNat * context.pixelsPerScanLine.toNat :=
    Nat.mul_le_mul_right _ hy
  rw [Nat.add_mul _ 1, Nat.one_mul] at hrow
  have hsum : (point.y + UInt32.ofNat y).toNat = point.y.toNat + y := by
    rw [UInt32.toNat_add, UInt32.toNat_ofNat']
    omega
  rw [UInt32.toNat_add, UInt32.toNat_mul, hsum, Nat.mod_add_mod, Nat.mod_eq_of_lt (by omega)]

/-- The stores of a routine that starts on the screen. -/
theorem mem_drawClipped (hbuffer : context.framebuffer ≠ none)
    (hx : point.x < context.dimensions.width) (hy : point.y < context.dimensions.height)
    {store : PixelStore} : store ∈ drawClipped context point size pixel ↔
      ∃ x y : Nat, x < (clipExtent point.x size.width context.dimensions.width).toNat ∧
        y < (clipExtent point.y size.height context.dimensions.height).toNat ∧
        pixel (UInt32.ofNat x) (UInt32.ofNat y) = some store.color ∧ store.index =
          ((point.y + UInt32.ofNat y) * context.pixelsPerScanLine + point.x).toNat + x := by
  have hsome : ¬ context.framebuffer.isNone = true := by simpa using hbuffer
  have hon : ¬ (point.x ≥ context.dimensions.width ∨ point.y ≥ context.dimensions.height) := by
    simp only [ge_iff_le, not_or, UInt32.not_le]
    exact ⟨hx, hy⟩
  unfold drawClipped
  rw [if_neg hsome, if_neg hon]
  simp only [List.mem_flatMap, List.mem_filterMap, List.mem_range, Option.map_eq_some_iff]
  constructor
  · rintro ⟨y, hy, x, hx, color, hcolor, rfl⟩
    exact ⟨x, y, hx, hy, hcolor, rfl⟩
  · rintro ⟨x, y, hx, hy, hcolor, hindex⟩
    refine ⟨y, hy, x, hx, store.color, hcolor, ?_⟩
    rw [← hindex]

/-- The stores of a routine whose far edges do not wrap. -/
theorem mem_drawClipped_iff (hbuffer : context.framebuffer ≠ none)
    (hframe : context.dimensions.height.toNat * context.pixelsPerScanLine.toNat < 2 ^ 32)
    (hpitch : context.dimensions.width.toNat ≤ context.pixelsPerScanLine.toNat)
    (hfits : Fits context point size) {store : PixelStore} :
    store ∈ drawClipped context point size pixel ↔
      ∃ x y, InRectangle point size x y ∧ ScreenPixel context x y store.index ∧
        pixel (UInt32.ofNat (x - point.x.toNat)) (UInt32.ofNat (y - point.y.toNat)) =
          some store.color := by
  by_cases hon : point.x < context.dimensions.width ∧ point.y < context.dimensions.height
  · obtain ⟨hx, hy⟩ := hon
    rw [mem_drawClipped hbuffer hx hy]
    have hx' := UInt32.lt_iff_toNat_lt.mp hx
    have hy' := UInt32.lt_iff_toNat_lt.mp hy
    rcases hfits with hoff | hoff | hzero | hzero | ⟨hright, hbottom⟩
    · exact absurd hx (UInt32.not_lt.mpr hoff)
    · exact absurd hy (UInt32.not_lt.mpr hoff)
    · -- nothing to draw
      have hclip : (clipExtent point.x size.width context.dimensions.width).toNat = 0 := by
        rw [clipExtent_eq_min hx (by rw [hzero]; simpa using point.x.toNat_lt), hzero]
        simp
      constructor
      · rintro ⟨x, y, hx, -⟩
        omega
      · rintro ⟨x, y, ⟨hl, hr, -, -⟩, -⟩
        rw [hzero] at hr
        simp at hr
        omega
    · have hclip : (clipExtent point.y size.height context.dimensions.height).toNat = 0 := by
        rw [clipExtent_eq_min hy (by rw [hzero]; simpa using point.y.toNat_lt), hzero]
        simp
      constructor
      · rintro ⟨x, y, -, hy, -⟩
        omega
      · rintro ⟨x, y, ⟨-, -, ht, hb⟩, -⟩
        rw [hzero] at hb
        simp at hb
        omega
    · rw [clipExtent_eq_min hx hright, clipExtent_eq_min hy hbottom]
      constructor
      · rintro ⟨x, y, hx, hy, hpixel, hindex⟩
        refine ⟨point.x.toNat + x, point.y.toNat + y, ⟨by omega, by omega, by omega, by omega⟩,
          ⟨by omega, by omega, ?_⟩, ?_⟩
        · rw [hindex, row_toNat hframe hpitch ‹_› (by omega), Nat.add_assoc]
        · rwa [Nat.add_sub_cancel_left, Nat.add_sub_cancel_left]
      · rintro ⟨x, y, ⟨hl, hr, ht, hb⟩, ⟨hx, hy, hindex⟩, hpixel⟩
        refine ⟨x - point.x.toNat, y - point.y.toNat, by omega, by omega, hpixel, ?_⟩
        rw [row_toNat hframe hpitch ‹_› (by omega), hindex, Nat.add_sub_cancel' ht]
        omega
  · -- the start is off the screen, and so is everything behind it
    constructor
    · intro hmem
      unfold drawClipped at hmem
      have hoff : point.x ≥ context.dimensions.width ∨ point.y ≥ context.dimensions.height := by
        rw [not_and_or, UInt32.not_lt, UInt32.not_lt] at hon
        exact hon
      rw [if_pos hoff, ite_self] at hmem
      simp at hmem
    · rintro ⟨x, y, ⟨hl, -, ht, -⟩, ⟨hx, hy, -⟩, -⟩
      rw [UInt32.lt_iff_toNat_lt, UInt32.lt_iff_toNat_lt] at hon
      omega

/-- Pixels behind the framebuffer are not on the screen. -/
theorem not_screenPixel {x y index : Nat}
    (hpitch : context.dimensions.width.toNat ≤ context.pixelsPerScanLine.toNat)
    (hindex : context.dimensions.height.toNat * context.pixelsPerScanLine.toNat ≤ index) :
    ¬ ScreenPixel context x y index := by
  rintro ⟨hx, hy, rfl⟩
  have hrow := Nat.mul_le_mul_right context.pixelsPerScanLine.toNat hy
  rw [Nat.succ_eq_add_one, Nat.add_mul, Nat.one_mul] at hrow
  omega

/-- Among the rows whose numbers are multiples of the height, one has its index behind
the framebuffer when the index is computed in 32 bits. -/
theorem exists_row_behind {height pitch x : Nat} (hframe : height * pitch < 2 ^ 32)
    (hx : x < pitch) :
    ∃ row, height ≤ row ∧ row < 2 ^ 32 ∧ height * pitch ≤ (row * pitch + x) % 2 ^ 32 := by
  obtain ⟨gap, hgap⟩ : ∃ gap, height * pitch + gap = 2 ^ 32 := ⟨_, Nat.add_sub_cancel' hframe.le⟩
  have hpos : 0 < gap := by omega
  let k := x / gap + 1
  have hlow : x < k * gap := by
    rw [Nat.mul_comm]
    exact Nat.lt_mul_div_succ x hpos
  have hhigh : k * gap ≤ x + gap := by
    rw [Nat.add_mul, Nat.one_mul]
    exact Nat.add_le_add_right (Nat.div_mul_le_self x gap) gap
  refine ⟨height * k, Nat.le_mul_of_pos_right _ (Nat.succ_pos _), ?_, ?_⟩
  · have hk : k ≤ pitch := Nat.le_trans (Nat.succ_le_succ (Nat.div_le_self x gap)) hx
    exact Nat.lt_of_le_of_lt (Nat.mul_le_mul_left height hk) hframe
  · have hturn : height * k * pitch + x = (2 ^ 32 - (k * gap - x)) + 2 ^ 32 * (x / gap) := by
      have hk : height * k * pitch + k * gap = 2 ^ 32 * (x / gap) + 2 ^ 32 := by
        rw [← Nat.mul_succ, ← hgap, Nat.succ_eq_add_one]
        ring
      omega
    rw [hturn, Nat.add_mul_mod_self_left, Nat.mod_eq_of_lt (by omega)]
    omega

/-- A far edge that wraps takes the drawing off the screen, if no pixel is left out. -/
theorem not_clipped_of_wrap (hbuffer : context.framebuffer ≠ none)
    (hframe : context.dimensions.height.toNat * context.pixelsPerScanLine.toNat < 2 ^ 32)
    (hpitch : context.dimensions.width.toNat ≤ context.pixelsPerScanLine.toNat)
    (hpixel : ∀ x y, x < size.width → pixel x y ≠ none) (hfits : ¬ Fits context point size) :
    ¬ Clipped context (drawClipped context point size pixel) := by
  unfold Fits at hfits
  simp only [not_or, UInt32.not_le] at hfits
  obtain ⟨hx, hy, hwidth, hheight, hwrap⟩ := hfits
  intro hclipped
  have hx' := UInt32.lt_iff_toNat_lt.mp hx
  have hy' := UInt32.lt_iff_toNat_lt.mp hy
  -- pixels in front of the clipped extents are stored
  have hstored : ∀ x y : Nat, x < (clipExtent point.x size.width context.dimensions.width).toNat →
      y < (clipExtent point.y size.height context.dimensions.height).toNat →
      ((point.y + UInt32.ofNat y) * context.pixelsPerScanLine + point.x).toNat + x <
        context.dimensions.height.toNat * context.pixelsPerScanLine.toNat := by
    intro x y hxw hyh
    have hlt : UInt32.ofNat x < size.width := by
      have hle : (clipExtent point.x size.width context.dimensions.width).toNat ≤ size.width.toNat :=
        clipExtent_le hx
      rw [UInt32.lt_iff_toNat_lt, UInt32.toNat_ofNat', Nat.mod_eq_of_lt (by have := size.width.toNat_lt; omega)]
      omega
    obtain ⟨color, hcolor⟩ := Option.ne_none_iff_exists'.mp (hpixel _ (UInt32.ofNat y) hlt)
    by_contra hbehind
    obtain ⟨x', y', hscreen⟩ := hclipped ⟨_, color⟩
      ((mem_drawClipped hbuffer hx hy).mpr ⟨x, y, hxw, hyh, hcolor, rfl⟩)
    exact not_screenPixel hpitch (Nat.le_of_not_lt hbehind) hscreen
  have hcols := clipExtent_pos hx hwidth
  have hrows := clipExtent_pos hy hheight
  by_cases hright : point.x.toNat + size.width.toNat < 2 ^ 32
  · -- some row that wraps around lies behind the framebuffer
    have hbottom : 2 ^ 32 ≤ point.y.toNat + size.height.toNat :=
      Nat.le_of_not_lt fun h => hwrap ⟨hright, h⟩
    obtain ⟨row, hrow, hlt, hbehind⟩ := exists_row_behind hframe (Nat.lt_of_lt_of_le hx' hpitch)
    have hin := hstored 0 (row - point.y.toNat) hcols (by
      rw [clipExtent_of_wrap hy hbottom]
      omega)
    have hsum : (point.y + UInt32.ofNat (row - point.y.toNat)).toNat = row := by
      rw [UInt32.toNat_add, UInt32.toNat_ofNat']
      omega
    rw [UInt32.toNat_add, UInt32.toNat_mul, hsum, Nat.mod_add_mod] at hin
    omega
  · -- the last pixel of the first row is at 2^32 - 1 or behind it
    have hin := hstored (size.width.toNat - 1) 0 (by
      rw [clipExtent_of_wrap hx (Nat.le_of_not_lt hright)]
      rw [clipExtent_of_wrap hx (Nat.le_of_not_lt hright)] at hcols
      omega) hrows
    rw [row_toNat hframe hpitch hx (by omega)] at hin
    omega

end Clipping

/-! ## Section 3: Clipping -/

section Routines

variable {context : IOGraphicsContext} {point : IOGraphicsPoint}

theorem clipped_of_fits {size : IOGraphicsSize} {pixel : UInt32 → UInt32 → Option UInt32}
    (hbuffer : context.framebuffer ≠ none)
    (hframe : context.dimensions.height.toNat * context.pixelsPerScanLine.toNat < 2 ^ 32)
    (hpitch : context.dimensions.width.toNat ≤ context.pixelsPerScanLine.toNat)
    (hfits : Fits context point size) : Clipped context (drawClipped context point size pixel) := by
  intro store hstore
  obtain ⟨x, y, -, hscreen, -⟩ := (mem_drawClipped_iff hbuffer hframe hpitch hfits).mp hstore
  exact ⟨x, y, hscreen⟩

theorem rectangle_fills {size : IOGraphicsSize} (color : UInt32) (hbuffer : context.framebuffer ≠ none)
    (hframe : context.dimensions.height.toNat * context.pixelsPerScanLine.toNat < 2 ^ 32)
    (hpitch : context.dimensions.width.toNat ≤ context.pixelsPerScanLine.toNat)
    (hfits : Fits context point size) :
    FillsIntersection context point size color (ioGraphicsDrawRectangle context point size color) := by
  intro index c
  unfold ioGraphicsDrawRectangle
  rw [mem_drawClipped_iff hbuffer hframe hpitch hfits]
  constructor
  · rintro ⟨x, y, hin, hscreen, hcolor⟩
    exact ⟨(Option.some.inj hcolor).symm, x, y, hin, hscreen⟩
  · rintro ⟨rfl, x, y, hin, hscreen⟩
    exact ⟨x, y, hin, hscreen, rfl⟩

/-- All eight pixels of a row of a glyph can be set. -/
theorem glyph_row_full (x : UInt32) (h : x < 8) : (255 : UInt8).toUInt32 &&& (1 <<< (7 - x)) ≠ 0 := by
  have hx : x.toNat < 8 := UInt32.lt_iff_toNat_lt.mp h
  have hof : x = UInt32.ofNat x.toNat := UInt32.ofNat_toNat.symm
  interval_cases hn : x.toNat <;> (rw [hof]; decide)

/-- Drawing is clipped, whatever is drawn, exactly where the far edges do not wrap. -/
theorem drawing_clipped_iff (context : IOGraphicsContext) (point : IOGraphicsPoint)
    (hbuffer : context.framebuffer ≠ none)
    (hframe : context.dimensions.height.toNat * context.pixelsPerScanLine.toNat < 2 ^ 32)
    (hpitch : context.dimensions.width.toNat ≤ context.pixelsPerScanLine.toNat) :
    (∀ size color,
      (Clipped context (ioGraphicsDrawRectangle context point size color) ∧
        FillsIntersection context point size color
          (ioGraphicsDrawRectangle context point size color)) ↔ Fits context point size) ∧
    (∀ size, (∀ buffer, Clipped context (ioGraphicsDrawImage context point (some ⟨buffer, size⟩))) ↔
      Fits context point size) ∧
    (∀ height, (∀ baseAddress c color, Clipped context
        (ioGraphicsDrawCharacter context point c color ⟨⟨8, height⟩, baseAddress⟩)) ↔
      Fits context point ⟨8, height⟩) := by
  refine ⟨fun size color => ⟨?_, ?_⟩, fun size => ⟨?_, ?_⟩, fun height => ⟨?_, ?_⟩⟩
  · rintro ⟨hclipped, -⟩
    by_contra hfits
    exact not_clipped_of_wrap hbuffer hframe hpitch (by simp) hfits hclipped
  · intro hfits
    exact ⟨clipped_of_fits hbuffer hframe hpitch hfits,
      rectangle_fills color hbuffer hframe hpitch hfits⟩
  · intro hclipped
    by_contra hfits
    -- an image without a transparent pixel
    have hnone := hclipped fun _ => 0
    unfold ioGraphicsDrawImage at hnone
    refine not_clipped_of_wrap hbuffer hframe hpitch ?_ hfits hnone
    intro x y _
    simp [kIOGraphicsTransparencyKey]
  · intro hfits buffer
    unfold ioGraphicsDrawImage
    exact clipped_of_fits hbuffer hframe hpitch hfits
  · intro hclipped
    by_contra hfits
    -- a glyph without a hole
    refine not_clipped_of_wrap hbuffer hframe hpitch ?_ hfits (hclipped (fun _ => 255) 0 0)
    intro x y hx
    simp only [if_pos (glyph_row_full x hx)]
    simp
  · exact fun hfits baseAddress c color => clipped_of_fits hbuffer hframe hpitch hfits

end Routines

/-- A screen of four pixels in four rows. -/
def smallScreen : IOGraphicsContext := ⟨some fun _ => 0, ⟨4, 4⟩, 4⟩

/-- Of a rectangle, an image or a glyph that sticks out at the bottom the small screen shows its
part. -/
theorem drawing_clipped_iff_small :
    (Clipped smallScreen (ioGraphicsDrawRectangle smallScreen ⟨1, 1⟩ ⟨2, 9⟩ 7) ∧
      FillsIntersection smallScreen ⟨1, 1⟩ ⟨2, 9⟩ 7
        (ioGraphicsDrawRectangle smallScreen ⟨1, 1⟩ ⟨2, 9⟩ 7)) ∧
    Clipped smallScreen (ioGraphicsDrawImage smallScreen ⟨1, 1⟩ (some ⟨fun _ => 5, ⟨2, 9⟩⟩)) ∧
    Clipped smallScreen
      (ioGraphicsDrawCharacter smallScreen ⟨1, 1⟩ 'A'.toUInt8 7 ⟨⟨8, 16⟩, fun _ => 255⟩) := by
  obtain ⟨hrectangle, himage, hglyph⟩ := drawing_clipped_iff smallScreen ⟨1, 1⟩
    (by simp [smallScreen]) (by decide) (by decide)
  refine ⟨(hrectangle ⟨2, 9⟩ 7).mpr ?_, (himage ⟨2, 9⟩).mpr ?_ _, (hglyph 16).mpr ?_ _ _ _⟩
  all_goals
    unfold Fits
    decide

/-- A rectangle of 2^32 - 1 columns from the third pixel on leaves the screen. -/
theorem rectangle_not_clipped :
    ¬ (Clipped smallScreen (ioGraphicsDrawRectangle smallScreen ⟨2, 0⟩ ⟨4294967295, 1⟩ 0) ∧
      FillsIntersection smallScreen ⟨2, 0⟩ ⟨4294967295, 1⟩ 0
        (ioGraphicsDrawRectangle smallScreen ⟨2, 0⟩ ⟨4294967295, 1⟩ 0)) := by
  rintro ⟨hclipped, -⟩
  refine not_clipped_of_wrap (by simp [smallScreen]) (by decide) (by decide) (by simp) ?_ hclipped
  unfold Fits
  decide

end TermOS.Device
