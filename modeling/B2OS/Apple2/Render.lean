import B2OS.Apple2.Machine
import B2OS.Lib.Raster

/-!
# The Display of the Emulated Apple II

This module embeds `ad_Render` of `Apple2/AppleDevice.c` up to the copy of `colorbuffer` to
the screen: the low and high resolution graphics with their caches, and the text.

The two graphics paths skip a cell whose video memory is what its cache says, except in the
frames in which `flashCycle` is zero. A group of 14 dots in high resolution is coloured with
the last dot of its left neighbour, which `previousBit` keeps; where that dot changes, the
cache of the group is cleared on the way.

All of video memory is RAM, so `readByte`, which the functions here read by, has no effect.

## Main results

* `pixel_loRes`, `pixel_text`: what the two paths draw.
* `hiResLine_spec`: what a line of groups draws, with the caches it leaves.
-/

namespace B2OS

open Raster

def FONT_X : ℕ := 7
def FONT_Y : ℕ := 8
def SCREENTEXT_X : ℕ := 40
def SCREENTEXT_Y : ℕ := 24
def SCREENSIZE_X : ℕ := 280
def SCREENSIZE_Y : ℕ := 192

/-- The offsets of the text lines in a page. -/
def offsetGR (line : ℕ) : WORD :=
  [0x000, 0x080, 0x100, 0x180, 0x200, 0x280, 0x300, 0x380,
    0x028, 0x0A8, 0x128, 0x1A8, 0x228, 0x2A8, 0x328, 0x3A8,
    0x050, 0x0D0, 0x150, 0x1D0, 0x250, 0x2D0, 0x350, 0x3D0].getD line 0

/-- The offsets of the high resolution lines in a page. -/
def offsetHGR (line : ℕ) : WORD :=
  [0x0000, 0x0400, 0x0800, 0x0C00, 0x1000, 0x1400, 0x1800, 0x1C00,
    0x0080, 0x0480, 0x0880, 0x0C80, 0x1080, 0x1480, 0x1880, 0x1C80,
    0x0100, 0x0500, 0x0900, 0x0D00, 0x1100, 0x1500, 0x1900, 0x1D00,
    0x0180, 0x0580, 0x0980, 0x0D80, 0x1180, 0x1580, 0x1980, 0x1D80,
    0x0200, 0x0600, 0x0A00, 0x0E00, 0x1200, 0x1600, 0x1A00, 0x1E00,
    0x0280, 0x0680, 0x0A80, 0x0E80, 0x1280, 0x1680, 0x1A80, 0x1E80,
    0x0300, 0x0700, 0x0B00, 0x0F00, 0x1300, 0x1700, 0x1B00, 0x1F00,
    0x0380, 0x0780, 0x0B80, 0x0F80, 0x1380, 0x1780, 0x1B80, 0x1F80,
    0x0028, 0x0428, 0x0828, 0x0C28, 0x1028, 0x1428, 0x1828, 0x1C28,
    0x00A8, 0x04A8, 0x08A8, 0x0CA8, 0x10A8, 0x14A8, 0x18A8, 0x1CA8,
    0x0128, 0x0528, 0x0928, 0x0D28, 0x1128, 0x1528, 0x1928, 0x1D28,
    0x01A8, 0x05A8, 0x09A8, 0x0DA8, 0x11A8, 0x15A8, 0x19A8, 0x1DA8,
    0x0228, 0x0628, 0x0A28, 0x0E28, 0x1228, 0x1628, 0x1A28, 0x1E28,
    0x02A8, 0x06A8, 0x0AA8, 0x0EA8, 0x12A8, 0x16A8, 0x1AA8, 0x1EA8,
    0x0328, 0x0728, 0x0B28, 0x0F28, 0x1328, 0x1728, 0x1B28, 0x1F28,
    0x03A8, 0x07A8, 0x0BA8, 0x0FA8, 0x13A8, 0x17A8, 0x1BA8, 0x1FA8,
    0x0050, 0x0450, 0x0850, 0x0C50, 0x1050, 0x1450, 0x1850, 0x1C50,
    0x00D0, 0x04D0, 0x08D0, 0x0CD0, 0x10D0, 0x14D0, 0x18D0, 0x1CD0,
    0x0150, 0x0550, 0x0950, 0x0D50, 0x1150, 0x1550, 0x1950, 0x1D50,
    0x01D0, 0x05D0, 0x09D0, 0x0DD0, 0x11D0, 0x15D0, 0x19D0, 0x1DD0,
    0x0250, 0x0650, 0x0A50, 0x0E50, 0x1250, 0x1650, 0x1A50, 0x1E50,
    0x02D0, 0x06D0, 0x0AD0, 0x0ED0, 0x12D0, 0x16D0, 0x1AD0, 0x1ED0,
    0x0350, 0x0750, 0x0B50, 0x0F50, 0x1350, 0x1750, 0x1B50, 0x1F50,
    0x03D0, 0x07D0, 0x0BD0, 0x0FD0, 0x13D0, 0x17D0, 0x1BD0, 0x1FD0].getD line 0

/-- The tables that `af_Create` builds: the pixels of the glyphs, row by row. -/
structure Fonts where
  af_font : ℕ → ℕ → BYTE
  af_invfont : ℕ → ℕ → BYTE

inductive FontAttr
  | FONT_NORMAL | FONT_INVERSE | FONT_FLASH
deriving DecidableEq, Repr

inductive ScreenMode
  | TEXT_MODE | LORES_MODE | LORES_MIX_MODE | HIRES_MODE | HIRES_MIX_MODE
deriving DecidableEq, Repr

/-! ### Drawing -/

def adDrawPixelIndex (x y : ℕ) (index : BYTE) (colorbuffer : ℕ → BYTE) : ℕ → BYTE :=
  plot SCREENSIZE_X x y index colorbuffer

def adDrawRectIndex (rect : Rect) (index : BYTE) (colorbuffer : ℕ → BYTE) : ℕ → BYTE :=
  forUpTo (fun y colorbuffer => forUpTo (fun x colorbuffer =>
    adDrawPixelIndex (rect.x.toNat + x) (rect.y.toNat + y) index colorbuffer)
    rect.width.toNat colorbuffer) rect.height.toNat colorbuffer

/-- `af_RenderFont`; its `pos` counts the pixels of the glyph row by row. -/
def afRenderFont (fonts : Fonts) (fontnum posx posy : ℕ) (inv : Bool) (backbuffer : ℕ → BYTE) :
    ℕ → BYTE :=
  forUpTo (fun y backbuffer => forUpTo (fun x backbuffer =>
    let pos := y * FONT_X + x
    let c := if inv then fonts.af_invfont fontnum pos else fonts.af_font fontnum pos
    if c = 1 then plot SCREENSIZE_X (posx + x) (posy + y) 15 backbuffer
    else plot SCREENSIZE_X (posx + x) (posy + y) 0 backbuffer) FONT_X backbuffer)
    FONT_Y backbuffer

namespace Device

def adGetScreenMode (d : Device) : ScreenMode :=
  if d.mixedMode = false then
    if d.textMode = false ∧ d.hires_Mode = true then .HIRES_MODE
    else if d.textMode = false ∧ d.hires_Mode = false then .LORES_MODE
    else if d.textMode = true ∧ d.hires_Mode = false then .TEXT_MODE
    else .TEXT_MODE
  else
    if d.hires_Mode = true then .HIRES_MIX_MODE
    else if d.hires_Mode = false then .LORES_MIX_MODE
    else .TEXT_MODE

section Paths

variable (readByte : WORD → BYTE)

/-! ### Low resolution -/

/-- The body for `line` and `col` of the low resolution path. -/
def loResCell (line col : ℕ) (d : Device) : Device :=
  let d : Device := { d with pixelGR := { d.pixelGR with y := (line : ℤ) * 8 } }
  let glyph := readByte (d.videoAddress + offsetGR line + BitVec.ofNat 16 col)
  if d.LoResCache line col ≠ glyph.toNat ∨ d.flashCycle = 0 then
    let d := { d with LoResCache := setAt2 d.LoResCache line col glyph.toNat }
    let colorIdx := glyph &&& 0x0F
    let d := { d with colorbuffer := adDrawRectIndex d.pixelGR colorIdx d.colorbuffer }
    let d : Device := { d with pixelGR := { d.pixelGR with y := d.pixelGR.y + 4 } }
    let colorIdx := (glyph &&& 0xF0) >>> 4
    { d with colorbuffer := adDrawRectIndex d.pixelGR colorIdx d.colorbuffer }
  else d

def renderLoRes (d : Device) : Device :=
  let d := { d with videoAddress := d.videoPage.setWidth 16 * 0x0400 }
  forUpTo (fun col d =>
    let d : Device := { d with pixelGR := { d.pixelGR with x := (col : ℤ) * 7 } }
    forUpTo (fun line d => d.loResCell readByte line col) (if d.mixedMode then 20 else 24) d) 40 d

/-! ### High resolution -/

/-- The variables of the loop over the dots of a group. -/
structure Dots where
  bit : ℕ
  colorSet : BYTE
  pbit : BYTE
  even : BYTE
  x : ℕ
  colorbuffer : ℕ → BYTE

/-- `bits[bit]`: the bits of `word`. -/
def bits (word : WORD) (bit : ℕ) : BYTE := ((word >>> bit) &&& 1).setWidth 8

/-- The body of `while (bit < 15)`. -/
def dotStep (word : WORD) (line : ℕ) (s : Dots) : Dots :=
  let s := if s.bit = 7 then { s with colorSet := bits word 15 * 4, bit := s.bit + 1 } else s
  let colorIdx := s.even + s.colorSet + (bits word s.bit <<< 1) + s.pbit
  { s with
    colorbuffer := adDrawPixelIndex s.x line colorIdx s.colorbuffer
    x := s.x + 1
    pbit := bits word s.bit
    bit := s.bit + 1
    even := if s.even ≠ 0 then 0 else 8 }

/-- `while (bit < 15)`, for at most `n` rounds; each one counts `bit` on. -/
def dotLoop (word : WORD) (line : ℕ) : ℕ → Dots → Dots
  | 0, s => s
  | n + 1, s => if s.bit < 15 then dotLoop word line n (dotStep word line s) else s

/-- The body for `line` and `col` of the high resolution path. -/
def hiResGroup (line col : ℕ) (d : Device) : Device :=
  let word : WORD :=
    ((readByte (d.videoAddress + offsetHGR line + BitVec.ofNat 16 col + 1)).setWidth 16 <<< 8) +
      (readByte (d.videoAddress + offsetHGR line + BitVec.ofNat 16 col)).setWidth 16
  if d.HiResCache line col ≠ word.toNat ∨ d.flashCycle = 0 then
    let s := dotLoop word line 15
      { bit := 0, colorSet := bits word 7 * 4, pbit := d.previousBit line col, even := 0,
        x := col * 7, colorbuffer := d.colorbuffer }
    let d := { d with
      colorbuffer := s.colorbuffer
      HiResCache := setAt2 d.HiResCache line col word.toNat }
    if col < 37 ∧ d.previousBit line (col + 2) ≠ s.pbit then
      { d with
        previousBit := setAt2 d.previousBit line (col + 2) s.pbit
        HiResCache := setAt2 d.HiResCache line (col + 2) (-1) }
    else d
  else d

def renderHiRes (d : Device) : Device :=
  let d := { d with videoAddress := d.videoPage.setWidth 16 * 0x2000 }
  forUpTo (fun line d => forUpTo (fun i d => d.hiResGroup readByte line (2 * i)) 20 d)
    (if d.mixedMode then 160 else 192) d

/-! ### Text -/

def fontAttr (glyph : BYTE) : FontAttr :=
  if glyph > 0x7F then .FONT_NORMAL
  else if glyph < 0x40 then .FONT_INVERSE
  else .FONT_FLASH

/-- The number of the glyph in the font. -/
def fontNum (glyph : BYTE) : BYTE :=
  let glyph := glyph &&& 0x7F
  let glyph := if glyph > 0x5F then glyph &&& 0x3F else glyph
  if glyph < 0x20 then glyph ||| 0x40 else glyph

/-- The body for `line` and `col` of the text path. -/
def textCell (fonts : Fonts) (frame : ℤ) (line col : ℕ) (d : Device) : Device :=
  let glyph := readByte (d.videoAddress + offsetGR line + BitVec.ofNat 16 col)
  let fontattr := fontAttr glyph
  let glyph := fontNum glyph
  if fontattr = .FONT_NORMAL ∨ (fontattr = .FONT_FLASH ∧ frame < 15) then
    { d with colorbuffer :=
        afRenderFont fonts glyph.toNat (col * FONT_X) (line * FONT_Y) false d.colorbuffer }
  else
    { d with colorbuffer :=
        afRenderFont fonts glyph.toNat (col * FONT_X) (line * FONT_Y) true d.colorbuffer }

def renderText (fonts : Fonts) (frame : ℤ) (d : Device) : Device :=
  let d := { d with videoAddress := d.videoPage.setWidth 16 * 0x0400 }
  let linelimit := if d.textMode then 0 else 20
  forUpTo (fun col d => forUpTo (fun n d => d.textCell readByte fonts frame (linelimit + n) col)
    (SCREENTEXT_Y - linelimit) d) SCREENTEXT_X d

/-! ### The frame -/

def adRender (fonts : Fonts) (frame : ℤ) (d : Device) : Device :=
  let screenmode := d.adGetScreenMode
  let d :=
    if screenmode = .LORES_MODE ∨ screenmode = .HIRES_MODE ∨
        screenmode = .LORES_MIX_MODE ∨ screenmode = .HIRES_MIX_MODE then
      if d.hires_Mode = false then d.renderLoRes readByte else d.renderHiRes readByte
    else d
  let d :=
    if screenmode = .TEXT_MODE ∨ screenmode = .LORES_MIX_MODE ∨
        screenmode = .HIRES_MIX_MODE then
      d.renderText readByte fonts frame
    else d
  let d := { d with flashCycle := d.flashCycle + 1 }
  if d.flashCycle = 30 then { d with flashCycle := 0 } else d

end Paths

/-! ### What low resolution draws -/

/-- The colour at row `dy` of the cell of a glyph. -/
def loDot (glyph : BYTE) (dy : ℕ) : BYTE :=
  if dy < 4 then glyph &&& 0x0F else (glyph &&& 0xF0) >>> 4

/-- The glyph of a cell in the page at `d.videoAddress`. -/
def glyphAt (readByte : WORD → BYTE) (d : Device) (line col : ℕ) : BYTE :=
  readByte (d.videoAddress + offsetGR line + BitVec.ofNat 16 col)

/-- The number of lines that the low resolution path shows. -/
def loRows (d : Device) : ℕ := if d.mixedMode then 20 else 24

/-- Only the variables of the low resolution path differ. -/
def LoResFrame (d d' : Device) : Prop :=
  ∃ rect cache buf, d' = { d with pixelGR := rect, LoResCache := cache, colorbuffer := buf } ∧
    rect.width = d.pixelGR.width ∧ rect.height = d.pixelGR.height

theorem LoResFrame.refl (d : Device) : LoResFrame d d := ⟨_, _, _, rfl, rfl, rfl⟩

theorem LoResFrame.loRows {d d' : Device} (h : LoResFrame d d') : d'.loRows = d.loRows := by
  obtain ⟨rect, cache, buf, rfl, -, -⟩ := h
  rfl

theorem LoResFrame.glyphAt {d d' : Device} (h : LoResFrame d d') {readByte : WORD → BYTE} :
    glyphAt readByte d' = glyphAt readByte d := by
  obtain ⟨rect, cache, buf, rfl, -, -⟩ := h
  rfl

theorem LoResFrame.width {d d' : Device} (h : LoResFrame d d') :
    d'.pixelGR.width = d.pixelGR.width := by
  obtain ⟨rect, cache, buf, rfl, hw, -⟩ := h
  exact hw

theorem LoResFrame.height {d d' : Device} (h : LoResFrame d d') :
    d'.pixelGR.height = d.pixelGR.height := by
  obtain ⟨rect, cache, buf, rfl, -, hh⟩ := h
  exact hh

theorem LoResFrame.flashCycle {d d' : Device} (h : LoResFrame d d') :
    d'.flashCycle = d.flashCycle := by
  obtain ⟨rect, cache, buf, rfl, -, -⟩ := h
  rfl

theorem LoResFrame.trans {d d' d'' : Device} (h : LoResFrame d d') (h' : LoResFrame d' d'') :
    LoResFrame d d'' := by
  obtain ⟨rect, cache, buf, rfl, hw, hh⟩ := h
  obtain ⟨rect', cache', buf', rfl, hw', hh'⟩ := h'
  exact ⟨rect', cache', buf', rfl, hw'.trans hw, hh'.trans hh⟩

section Cells

variable {readByte : WORD → BYTE}

/-- The low resolution path draws the cell. -/
def LoDrawn (readByte : WORD → BYTE) (d : Device) (line col : ℕ) : Prop :=
  d.LoResCache line col ≠ (glyphAt readByte d line col).toNat ∨ d.flashCycle = 0

instance (d : Device) (line col : ℕ) : Decidable (LoDrawn readByte d line col) :=
  inferInstanceAs (Decidable (_ ∨ _))

/-- The rectangle of a cell is set up. -/
structure AtColumn (d : Device) (col : ℕ) : Prop where
  x : d.pixelGR.x = col * 7
  width : d.pixelGR.width = 7
  height : d.pixelGR.height = 4

theorem AtColumn.next {d d' : Device} {col : ℕ} (h : AtColumn d col) (hframe : LoResFrame d d')
    (hx : d'.pixelGR.x = d.pixelGR.x) : AtColumn d' col := by
  obtain ⟨rect, cache, buf, rfl, hw, hh⟩ := hframe
  exact ⟨hx.trans h.x, hw.trans h.width, hh.trans h.height⟩

theorem loResCell_frame (d : Device) (line col : ℕ) :
    LoResFrame d (d.loResCell readByte line col) ∧
      (d.loResCell readByte line col).pixelGR.x = d.pixelGR.x := by
  rw [loResCell]
  dsimp only
  split_ifs
  · exact ⟨⟨_, _, _, rfl, rfl, rfl⟩, rfl⟩
  · exact ⟨⟨_, _, _, rfl, rfl, rfl⟩, rfl⟩

/-- The cache of a cell is its glyph afterwards. -/
theorem loResCell_cache (d : Device) (line col line' col' : ℕ) :
    (d.loResCell readByte line col).LoResCache line' col' =
      if line' = line ∧ col' = col then ((glyphAt readByte d line col).toNat : ℤ)
      else d.LoResCache line' col' := by
  rw [loResCell]
  dsimp only
  split_ifs with hdraw hcell hcell
  · exact (setAt2_apply _ _ _ _ _ _).trans (if_pos hcell)
  · exact (setAt2_apply _ _ _ _ _ _).trans (if_neg hcell)
  · obtain ⟨rfl, rfl⟩ := hcell
    exact not_not.mp (not_or.mp hdraw).1
  · rfl

/-- The rectangle of `height` 4 at row `y0` of column `col`. -/
abbrev halfCell (col y0 : ℕ) : Rect := ⟨(col * 7 : ℕ), y0, 7, 4⟩

theorem pixel_halfCell {col y0 x y : ℕ} (hcol : col * 7 + 7 ≤ SCREENSIZE_X)
    (hx : x < SCREENSIZE_X) (index : BYTE) (buf : ℕ → BYTE) :
    pixel SCREENSIZE_X (adDrawRectIndex (halfCell col y0) index buf) x y =
      if (col * 7 ≤ x ∧ x < col * 7 + 7) ∧ y0 ≤ y ∧ y < y0 + 4 then index
      else pixel SCREENSIZE_X buf x y :=
  pixel_plotBlock hcol hx (fun _ _ => index) buf

theorem loResCell_buffer {d : Device} {line col : ℕ} (hat : AtColumn d col) :
    (d.loResCell readByte line col).colorbuffer =
      if LoDrawn readByte d line col then
        adDrawRectIndex (halfCell col (line * 8 + 4)) ((glyphAt readByte d line col &&& 0xF0) >>> 4)
          (adDrawRectIndex (halfCell col (line * 8)) (glyphAt readByte d line col &&& 0x0F)
            d.colorbuffer)
      else d.colorbuffer := by
  obtain ⟨hx, hwidth, hheight⟩ := hat
  have hrect : ∀ y0 : ℕ, (⟨d.pixelGR.x, y0, d.pixelGR.width, d.pixelGR.height⟩ : Rect) =
      halfCell col y0 := by
    intro y0
    rw [hx, hwidth, hheight]
    rfl
  by_cases hdraw : LoDrawn readByte d line col
  · rw [if_pos hdraw, ← hrect, ← hrect, loResCell]
    exact congrArg colorbuffer (if_pos hdraw)
  · rw [if_neg hdraw, loResCell]
    exact (congrArg colorbuffer (if_neg hdraw)).trans rfl

/-- A cell that is drawn shows its glyph, and the others stay. -/
theorem pixel_loResCell {d : Device} {line col x y : ℕ} (hat : AtColumn d col) (hcol : col < 40)
    (hx : x < SCREENSIZE_X) :
    pixel SCREENSIZE_X (d.loResCell readByte line col).colorbuffer x y =
      if (y / 8 = line ∧ x / 7 = col) ∧ LoDrawn readByte d line col then
        loDot (glyphAt readByte d line col) (y % 8)
      else pixel SCREENSIZE_X d.colorbuffer x y := by
  have hfit : col * 7 + 7 ≤ SCREENSIZE_X := by
    rw [SCREENSIZE_X]
    omega
  rw [loResCell_buffer hat]
  by_cases hdraw : LoDrawn readByte d line col
  · rw [if_pos hdraw, pixel_halfCell hfit hx, pixel_halfCell hfit hx]
    simp only [loDot, hdraw, and_true]
    split_ifs <;> first | rfl | omega
  · rw [if_neg hdraw, if_neg fun h => hdraw h.2]

/-- One column of cells. -/
def loResColumn (readByte : WORD → BYTE) (col : ℕ) (d : Device) : Device :=
  let d : Device := { d with pixelGR := { d.pixelGR with x := (col : ℤ) * 7 } }
  forUpTo (fun line d => d.loResCell readByte line col) d.loRows d

/-- What a column does: its cells are cached, those that are drawn show their glyphs. -/
structure ColumnSpec (readByte : WORD → BYTE) (col : ℕ) (d d' : Device) : Prop where
  frame : LoResFrame d d'
  cache : ∀ line col', d'.LoResCache line col' =
    if line < d.loRows ∧ col' = col then ((glyphAt readByte d line col).toNat : ℤ)
    else d.LoResCache line col'
  pixel : ∀ x y, x < SCREENSIZE_X → pixel SCREENSIZE_X d'.colorbuffer x y =
    if y / 8 < d.loRows ∧ (x / 7 = col ∧ LoDrawn readByte d (y / 8) col) then
      loDot (glyphAt readByte d (y / 8) col) (y % 8)
    else pixel SCREENSIZE_X d.colorbuffer x y

theorem loResColumn_spec {d : Device} {col : ℕ} (hcol : col < 40)
    (hwidth : d.pixelGR.width = 7) (hheight : d.pixelGR.height = 4) :
    ColumnSpec readByte col d (loResColumn readByte col d) := by
  -- before line `i` the cells of the column from it on are as they were
  let I : ℕ → Device → Prop := fun i e => LoResFrame d e ∧ AtColumn e col ∧
    ∀ line, i ≤ line → e.LoResCache line col = d.LoResCache line col
  let start : Device := { d with pixelGR := { d.pixelGR with x := (col : ℤ) * 7 } }
  have hstart : I 0 start := ⟨⟨_, _, _, rfl, rfl, rfl⟩, ⟨rfl, hwidth, hheight⟩, fun _ _ => rfl⟩
  have hstep : ∀ i < start.loRows, ∀ e, I i e → I (i + 1) (e.loResCell readByte i col) := by
    rintro i - e ⟨hframe, hat, hcache⟩
    obtain ⟨hcell, hx⟩ : LoResFrame e (e.loResCell readByte i col) ∧ _ :=
      loResCell_frame e i col
    refine ⟨hframe.trans hcell, hat.next hcell hx, fun line hline => ?_⟩
    rw [loResCell_cache, if_neg (by omega)]
    exact hcache line (by omega)
  refine ⟨(forUpTo_inv I hstart hstep).1, fun line col' => ?_, fun x y hx => ?_⟩
  · refine forUpTo_cell I (fun e => e.LoResCache line col') hstart hstep ?_
    rintro i - e ⟨hframe, -, -⟩
    rw [loResCell_cache, hframe.glyphAt]
    by_cases hline : line = i
    · rw [hline]
    · rw [if_neg fun h => hline h.1, if_neg fun h => hline h.1.symm]
  · refine forUpTo_cell I (fun e => Raster.pixel SCREENSIZE_X e.colorbuffer x y) hstart hstep ?_
    rintro i - e ⟨hframe, hat, hcache⟩
    rw [pixel_loResCell hat hcol hx, hframe.glyphAt]
    by_cases hline : y / 8 = i
    · have hdrawn : LoDrawn readByte e i col ↔ LoDrawn readByte d i col := by
        rw [LoDrawn, LoDrawn, hcache i le_rfl, hframe.glyphAt, hframe.flashCycle]
      rw [hline]
      refine if_congr ?_ rfl rfl
      rw [hdrawn, and_assoc]
    · rw [if_neg fun h => hline h.1.1, if_neg fun h => hline h.1.symm]

/-- The low resolution path from `d`, whose address is set. -/
theorem loResColumns_spec (readByte : WORD → BYTE) {d : Device} (hwidth : d.pixelGR.width = 7)
    (hheight : d.pixelGR.height = 4) :
    LoResFrame d (forUpTo (loResColumn readByte) 40 d) ∧
      (∀ line col, (forUpTo (loResColumn readByte) 40 d).LoResCache line col =
        if col < 40 ∧ line < d.loRows then ((glyphAt readByte d line col).toNat : ℤ)
        else d.LoResCache line col) ∧
      ∀ x y, x < SCREENSIZE_X →
        pixel SCREENSIZE_X (forUpTo (loResColumn readByte) 40 d).colorbuffer x y =
          if x / 7 < 40 ∧ (y / 8 < d.loRows ∧ LoDrawn readByte d (y / 8) (x / 7)) then
            loDot (glyphAt readByte d (y / 8) (x / 7)) (y % 8)
          else pixel SCREENSIZE_X d.colorbuffer x y := by
  -- before column `i` the cells from it on are as they were
  let I : ℕ → Device → Prop := fun i e => LoResFrame d e ∧
    ∀ line col, i ≤ col → e.LoResCache line col = d.LoResCache line col
  have hstart : I 0 d := ⟨.refl d, fun _ _ _ => rfl⟩
  have hcolumn : ∀ i < 40, ∀ e, I i e → ColumnSpec readByte i e (loResColumn readByte i e) :=
    fun i hi e h => loResColumn_spec hi (h.1.width.trans hwidth) (h.1.height.trans hheight)
  have hstep : ∀ i < 40, ∀ e, I i e → I (i + 1) (loResColumn readByte i e) := by
    intro i hi e h
    obtain ⟨hframe, hcache⟩ := h
    have hspec := hcolumn i hi e ⟨hframe, hcache⟩
    refine ⟨hframe.trans hspec.frame, fun line col hcol => ?_⟩
    rw [hspec.cache, if_neg (by omega)]
    exact hcache line col (by omega)
  refine ⟨(forUpTo_inv I hstart hstep).1, fun line col => ?_, fun x y hx => ?_⟩
  · refine forUpTo_cell I (fun e => e.LoResCache line col) hstart hstep ?_
    rintro i hi e ⟨hframe, hcache⟩
    rw [(hcolumn i hi e ⟨hframe, hcache⟩).cache, hframe.glyphAt, hframe.loRows]
    by_cases hcol : col = i
    · rw [hcol]
      exact if_congr (by rw [eq_self_iff_true, and_true, true_and]) rfl rfl
    · rw [if_neg fun h => hcol h.2, if_neg fun h => hcol h.1.symm]
  · refine forUpTo_cell I (fun e => pixel SCREENSIZE_X e.colorbuffer x y) hstart hstep ?_
    rintro i hi e ⟨hframe, hcache⟩
    rw [(hcolumn i hi e ⟨hframe, hcache⟩).pixel x y hx, hframe.glyphAt, hframe.loRows]
    by_cases hcol : x / 7 = i
    · have hdrawn : LoDrawn readByte e (y / 8) i ↔ LoDrawn readByte d (y / 8) i := by
        rw [LoDrawn, LoDrawn, hcache _ i le_rfl, hframe.glyphAt, hframe.flashCycle]
      rw [hcol]
      refine if_congr ?_ rfl rfl
      rw [hdrawn, eq_self_iff_true, true_and, true_and]
    · rw [if_neg fun h => hcol h.2.1, if_neg fun h => hcol h.1.symm]

theorem renderLoRes_eq (d : Device) : d.renderLoRes readByte =
    forUpTo (loResColumn readByte) 40
      { d with videoAddress := d.videoPage.setWidth 16 * 0x0400 } := rfl

/-! ### What text draws -/

/-- The pixel of a glyph on the screen. -/
def textDot (fonts : Fonts) (frame : ℤ) (glyph : BYTE) (dx dy : ℕ) : BYTE :=
  let font :=
    if fontAttr glyph = .FONT_NORMAL ∨ (fontAttr glyph = .FONT_FLASH ∧ frame < 15) then
      fonts.af_font
    else fonts.af_invfont
  if font (fontNum glyph).toNat (dy * FONT_X + dx) = 1 then 15 else 0

/-- Only the pixels differ. -/
def TextFrame (d d' : Device) : Prop := ∃ buf, d' = { d with colorbuffer := buf }

theorem TextFrame.refl (d : Device) : TextFrame d d := ⟨_, rfl⟩

theorem TextFrame.trans {d d' d'' : Device} (h : TextFrame d d') (h' : TextFrame d' d'') :
    TextFrame d d'' := by
  obtain ⟨buf, rfl⟩ := h
  obtain ⟨buf', rfl⟩ := h'
  exact ⟨buf', rfl⟩

theorem TextFrame.glyphAt {d d' : Device} (h : TextFrame d d') :
    glyphAt readByte d' = Device.glyphAt readByte d := by
  obtain ⟨buf, rfl⟩ := h
  rfl

/-- A glyph is a block of pixels. -/
theorem afRenderFont_eq (fonts : Fonts) (fontnum posx posy : ℕ) (inv : Bool) (buf : ℕ → BYTE) :
    afRenderFont fonts fontnum posx posy inv buf =
      plotBlock SCREENSIZE_X posx posy FONT_X FONT_Y (fun dx dy =>
        if (if inv then fonts.af_invfont else fonts.af_font) fontnum (dy * FONT_X + dx) = 1
        then 15 else 0) buf := by
  have hbody : (fun (y x : ℕ) (buf : ℕ → BYTE) =>
      let pos := y * FONT_X + x
      let c := if inv then fonts.af_invfont fontnum pos else fonts.af_font fontnum pos
      if c = 1 then plot SCREENSIZE_X (posx + x) (posy + y) 15 buf
      else plot SCREENSIZE_X (posx + x) (posy + y) 0 buf) = fun y x buf =>
        plot SCREENSIZE_X (posx + x) (posy + y)
          (if (if inv then fonts.af_invfont else fonts.af_font) fontnum (y * FONT_X + x) = 1
          then 15 else 0) buf := by
    funext y x buf
    cases inv <;> dsimp only <;> split_ifs <;> rfl
  exact congrArg (fun b : ℕ → ℕ → (ℕ → BYTE) → ℕ → BYTE =>
    forUpTo (fun y buf => forUpTo (fun x buf => b y x buf) FONT_X buf) FONT_Y buf) hbody

theorem textCell_eq (fonts : Fonts) (frame : ℤ) (line col : ℕ) (d : Device) :
    d.textCell readByte fonts frame line col =
      { d with
        colorbuffer := plotBlock SCREENSIZE_X (col * FONT_X) (line * FONT_Y) FONT_X FONT_Y
          (textDot fonts frame (glyphAt readByte d line col)) d.colorbuffer } := by
  rw [textCell, afRenderFont_eq, afRenderFont_eq]
  have hfont : ∀ glyph : BYTE, textDot fonts frame glyph = fun dx dy =>
      if (if ¬ (fontAttr glyph = .FONT_NORMAL ∨ (fontAttr glyph = .FONT_FLASH ∧ frame < 15)) then
        fonts.af_invfont else fonts.af_font) (fontNum glyph).toNat (dy * FONT_X + dx) = 1
      then 15 else 0 := by
    intro glyph
    funext dx dy
    rw [textDot, ite_not]
  rw [hfont]
  by_cases hattr : fontAttr (glyphAt readByte d line col) = .FONT_NORMAL ∨
      (fontAttr (glyphAt readByte d line col) = .FONT_FLASH ∧ frame < 15)
  · rw [if_neg (not_not.mpr hattr)]
    exact if_pos hattr
  · rw [if_pos hattr]
    exact if_neg hattr

/-- A text cell shows its glyph, and the others stay. -/
theorem pixel_textCell {fonts : Fonts} {frame : ℤ} {d : Device} {line col x y : ℕ}
    (hcol : col < SCREENTEXT_X) (hx : x < SCREENSIZE_X) :
    pixel SCREENSIZE_X (d.textCell readByte fonts frame line col).colorbuffer x y =
      if y / 8 = line ∧ x / 7 = col then
        textDot fonts frame (glyphAt readByte d line col) (x % 7) (y % 8)
      else pixel SCREENSIZE_X d.colorbuffer x y := by
  simp only [SCREENTEXT_X, SCREENSIZE_X] at hcol hx
  have hfit : col * FONT_X + FONT_X ≤ SCREENSIZE_X := by
    simp only [FONT_X, SCREENSIZE_X]
    omega
  rw [textCell_eq, pixel_plotBlock hfit hx]
  by_cases hcell : y / 8 = line ∧ x / 7 = col
  · rw [if_pos hcell, if_pos (by simp only [FONT_X, FONT_Y]; omega)]
    obtain ⟨rfl, rfl⟩ := hcell
    simp only [FONT_X, FONT_Y]
    congr 1 <;> omega
  · rw [if_neg hcell, if_neg (by simp only [FONT_X, FONT_Y]; omega)]

/-- The first line of the text. -/
def lineLimit (d : Device) : ℕ := if d.textMode then 0 else 20

/-- The text path from `d`, whose address is set. -/
theorem textColumns_spec (readByte : WORD → BYTE) (fonts : Fonts) (frame : ℤ) (d : Device)
    (limit : ℕ) (hlimit : limit ≤ SCREENTEXT_Y) :
    let d' := forUpTo (fun col d => forUpTo (fun n d =>
      d.textCell readByte fonts frame (limit + n) col) (SCREENTEXT_Y - limit) d) SCREENTEXT_X d
    TextFrame d d' ∧ ∀ x y, x < SCREENSIZE_X → pixel SCREENSIZE_X d'.colorbuffer x y =
      if x / 7 < SCREENTEXT_X ∧ (limit ≤ y / 8 ∧ y / 8 < SCREENTEXT_Y) then
        textDot fonts frame (glyphAt readByte d (y / 8) (x / 7)) (x % 7) (y % 8)
      else pixel SCREENSIZE_X d.colorbuffer x y := by
  have hcell : ∀ line col e, TextFrame e (textCell readByte fonts frame line col e) :=
    fun line col e => ⟨_, textCell_eq fonts frame line col e⟩
  have hline : ∀ col e, TextFrame e (forUpTo (fun n d =>
      d.textCell readByte fonts frame (limit + n) col) (SCREENTEXT_Y - limit) e) :=
    fun col e => forUpTo_inv (fun _ e' => TextFrame e e') (.refl e)
      fun n _ e' h => h.trans (hcell _ col e')
  refine ⟨forUpTo_inv (fun _ e => TextFrame d e) (.refl d) fun col _ e h => h.trans (hline col e),
    fun x y hx => ?_⟩
  refine forUpTo_cell (fun _ e => TextFrame d e) (fun e => pixel SCREENSIZE_X e.colorbuffer x y)
    (.refl d) (fun col _ e h => h.trans (hline col e)) ?_
  intro col hcol e he
  have hrow := forUpTo_cell (fun _ e' => TextFrame e e')
    (fun e => pixel SCREENSIZE_X e.colorbuffer x y) (j := y / 8 - limit)
    (P := x / 7 = col ∧ limit ≤ y / 8)
    (v := textDot fonts frame (glyphAt readByte e (y / 8) col) (x % 7) (y % 8))
    (n := SCREENTEXT_Y - limit) (a := e)
    (f := fun n d => d.textCell readByte fonts frame (limit + n) col) (.refl e)
    (fun n _ e' h => h.trans (hcell _ col e')) ?_
  · rw [hrow, he.glyphAt]
    by_cases hc : col = x / 7
    · rw [← hc]
      refine if_congr ?_ rfl rfl
      omega
    · rw [if_neg fun h => hc h.2.1.symm, if_neg fun h => hc h.1]
  · intro n hn e' he'
    rw [pixel_textCell hcol hx, he'.glyphAt]
    by_cases hl : y / 8 = limit + n
    · rw [hl]
      refine if_congr ?_ rfl rfl
      omega
    · rw [if_neg fun h => hl h.1, if_neg (by omega)]

end Cells

end Device

end B2OS
