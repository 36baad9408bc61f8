import B2OS.Apple2.HiRes

/-!
# What the Screen Shows

`ad_Render` redraws a graphics cell only when its cache does not match video memory, or once
in 30 frames. This module compares what it leaves on the screen with the `picture` that video
memory stands for under the soft switches.

Inside one graphics mode the caches are coherent with the screen, so that skipping a cell is
right. The paths share the screen but not the caches: after a change of mode a cell is
skipped when its old cache matches, whatever another path drew over it.

## Main results

* `pixel_adRender`: a pixel shows the picture when it is text or is drawn, and else stays.
* `render_eq_fullRedraw`: inside a graphics mode a frame leaves the picture that a redraw
  from empty caches leaves.
* `render_shows_iff`: a frame leaves the picture exactly when no stale pixel is skipped.
-/

namespace B2OS

open Raster

namespace Device

section Picture

variable (readByte : WORD → BYTE) (fonts : Fonts) (frame : ℤ) (d : Device)

/-! ### The picture -/

/-- The glyph of a cell of the displayed page. -/
def glyphOf (line col : ℕ) : BYTE :=
  glyphAt readByte { d with videoAddress := d.videoPage.setWidth 16 * 0x0400 } line col

/-- The two bytes of a group of the displayed high resolution page. -/
def wordOf (line g : ℕ) : WORD :=
  wordAt readByte { d with videoAddress := d.videoPage.setWidth 16 * 0x2000 } line g

/-- The dot to the left of a group; a line starts behind a dark one. -/
def leftOf (line : ℕ) : ℕ → BYTE
  | 0 => 0
  | g + 1 => lastDot (wordOf readByte d line g)

/-- Row `y` shows text. -/
def ShowsText (y : ℕ) : Prop := d.textMode = true ∨ (d.mixedMode = true ∧ 20 ≤ y / 8)

instance (y : ℕ) : Decidable (ShowsText d y) := inferInstanceAs (Decidable (_ ∨ _))

/-- The colour that video memory stands for. -/
def picture (x y : ℕ) : BYTE :=
  if ShowsText d y then
    textDot fonts frame (glyphOf readByte d (y / 8) (x / 7)) (x % 7) (y % 8)
  else if d.hires_Mode then
    groupDot (wordOf readByte d y (x / 14)) (leftOf readByte d y (x / 14)) (x % 14)
  else loDot (glyphOf readByte d (y / 8) (x / 7)) (y % 8)

/-- The high resolution path draws the group of a pixel: its cache does not match video
memory, or the dot to its left has changed. -/
def HiChanged (x y : ℕ) : Prop :=
  d.HiResCache y (2 * (x / 14)) ≠ (wordOf readByte d y (x / 14)).toNat ∨
    d.previousBit y (2 * (x / 14)) ≠ leftOf readByte d y (x / 14)

/-- The low resolution path draws the cell of a pixel: its cache does not match video
memory. -/
def LoChanged (x y : ℕ) : Prop :=
  d.LoResCache (y / 8) (x / 7) ≠ (glyphOf readByte d (y / 8) (x / 7)).toNat

/-- The graphics path of the mode draws the cell of a pixel. -/
def Drawn (x y : ℕ) : Prop :=
  d.flashCycle = 0 ∨
    if d.hires_Mode then HiChanged readByte d x y else LoChanged readByte d x y

instance (x y : ℕ) : Decidable (HiChanged readByte d x y) :=
  inferInstanceAs (Decidable (_ ∨ _))

instance (x y : ℕ) : Decidable (LoChanged readByte d x y) :=
  inferInstanceAs (Decidable (_ ≠ _))

instance (x y : ℕ) : Decidable (Drawn readByte d x y) :=
  inferInstanceAs (Decidable (d.flashCycle = 0 ∨
    if d.hires_Mode then HiChanged readByte d x y else LoChanged readByte d x y))

variable {readByte : WORD → BYTE} {fonts : Fonts} {frame : ℤ} {d : Device} {x y : ℕ}

theorem picture_lo (htext : ¬ ShowsText d y) (hlo : d.hires_Mode = false) :
    picture readByte fonts frame d x y = loDot (glyphOf readByte d (y / 8) (x / 7)) (y % 8) := by
  rw [picture, if_neg htext, hlo]
  rfl

theorem picture_hi (htext : ¬ ShowsText d y) (hhi : d.hires_Mode = true) :
    picture readByte fonts frame d x y =
      groupDot (wordOf readByte d y (x / 14)) (leftOf readByte d y (x / 14)) (x % 14) := by
  rw [picture, if_neg htext, if_pos hhi]

theorem drawn_lo (hlo : d.hires_Mode = false) :
    Drawn readByte d x y ↔ d.flashCycle = 0 ∨ LoChanged readByte d x y := by
  rw [Drawn, if_neg (ne_true_of_eq_false hlo)]

theorem drawn_hi (hhi : d.hires_Mode = true) :
    Drawn readByte d x y ↔ d.flashCycle = 0 ∨ HiChanged readByte d x y := by
  rw [Drawn, if_pos hhi]

end Picture

/-- The display variables as every frame leaves them: the rectangle of a low resolution cell,
the bits of the groups, and the dark dots to the left of the lines. -/
structure DisplayInv (d : Device) : Prop where
  width : d.pixelGR.width = 7
  height : d.pixelGR.height = 4
  kept : ∀ line < SCREENSIZE_Y, Kept d line
  edge : ∀ line < SCREENSIZE_Y, d.previousBit line 0 = 0

/-! ### The paths -/

section Paths

variable {readByte : WORD → BYTE}

/-- The soft switches and the counter are as they were. -/
structure SameSwitches (d d' : Device) : Prop where
  textMode : d'.textMode = d.textMode
  mixedMode : d'.mixedMode = d.mixedMode
  hires_Mode : d'.hires_Mode = d.hires_Mode
  videoPage : d'.videoPage = d.videoPage
  flashCycle : d'.flashCycle = d.flashCycle

/-- Devices that show the same page have the same video memory. -/
theorem glyphOf_congr {d d' : Device} (h : d'.videoPage = d.videoPage) :
    glyphOf readByte d' = glyphOf readByte d := by
  funext line col
  rw [glyphOf, glyphOf, glyphAt, glyphAt, h]

theorem wordOf_congr {d d' : Device} (h : d'.videoPage = d.videoPage) :
    wordOf readByte d' = wordOf readByte d := by
  funext line g
  rw [wordOf, wordOf, wordAt, wordAt, h]

theorem leftOf_congr {d d' : Device} (h : d'.videoPage = d.videoPage) :
    leftOf readByte d' = leftOf readByte d := by
  funext line g
  cases g with
  | zero => rfl
  | succ g => rw [leftOf, leftOf, wordOf_congr h]

theorem SameSwitches.showsText {d d' : Device} (h : SameSwitches d d') (y : ℕ) :
    ShowsText d' y ↔ ShowsText d y := by
  rw [ShowsText, ShowsText, h.textMode, h.mixedMode]

/-- The cache of the cell of a pixel matches video memory. -/
def Matched (readByte : WORD → BYTE) (d : Device) (x y : ℕ) : Prop :=
  if d.hires_Mode then ¬ HiChanged readByte d x y else ¬ LoChanged readByte d x y

/-- What the graphics do, outside the text. -/
structure GraphicsSpec (readByte : WORD → BYTE) (d e : Device) : Prop where
  switches : SameSwitches d e
  inv : DisplayInv e
  pixel : ∀ fonts frame x y, x < SCREENSIZE_X → y < SCREENSIZE_Y → ¬ ShowsText d y →
    pixel SCREENSIZE_X e.colorbuffer x y =
      if Drawn readByte d x y then picture readByte fonts frame d x y
      else pixel SCREENSIZE_X d.colorbuffer x y
  matched : ∀ x y, x < SCREENSIZE_X → y < SCREENSIZE_Y → ¬ ShowsText d y → Matched readByte e x y

theorem loRows_of_not_showsText {d : Device} {y : ℕ} (hy : y < SCREENSIZE_Y)
    (htext : ¬ ShowsText d y) : y / 8 < d.loRows := by
  rw [ShowsText, not_or, not_and] at htext
  rw [SCREENSIZE_Y] at hy
  rw [loRows]
  split_ifs with hmixed
  · have h20 := htext.2 hmixed
    omega
  · omega

theorem col_lt {x : ℕ} (hx : x < SCREENSIZE_X) : x / 7 < 40 := by
  rw [SCREENSIZE_X] at hx
  omega

theorem renderLoRes_spec {d : Device} (h : DisplayInv d) (hlo : d.hires_Mode = false) :
    GraphicsSpec readByte d (d.renderLoRes readByte) := by
  obtain ⟨hframe, hcache, hpixel⟩ := loResColumns_spec readByte (d := { d with
    videoAddress := d.videoPage.setWidth 16 * 0x0400 }) h.width h.height
  rw [← renderLoRes_eq] at hframe hcache hpixel
  have hswitches : SameSwitches d (d.renderLoRes readByte) := by
    obtain ⟨rect, cache, buf, heq, -, -⟩ := hframe
    rw [heq]
    exact ⟨rfl, rfl, rfl, rfl, rfl⟩
  refine ⟨hswitches, ?_, ?_, ?_⟩
  · obtain ⟨rect, cache, buf, heq, hw, hh⟩ := hframe
    rw [heq]
    exact ⟨hw.trans h.width, hh.trans h.height, h.kept, h.edge⟩
  · intro fonts frame x y hx hy htext
    have hrow := loRows_of_not_showsText hy htext
    rw [picture_lo htext hlo, hpixel x y hx]
    refine if_congr ?_ rfl rfl
    rw [drawn_lo hlo]
    exact ⟨fun hdraw => hdraw.2.2.symm, fun hdraw => ⟨col_lt hx, hrow, hdraw.symm⟩⟩
  · intro x y hx hy htext
    have hrow := loRows_of_not_showsText hy htext
    rw [Matched, hswitches.hires_Mode, if_neg (ne_true_of_eq_false hlo), LoChanged, not_not,
      glyphOf_congr hswitches.videoPage, hcache]
    exact if_pos ⟨col_lt hx, hrow⟩

theorem renderHiRes_spec {d : Device} (h : DisplayInv d) (hhi : d.hires_Mode = true) :
    GraphicsSpec readByte d (d.renderHiRes readByte) := by
  let start : Device := { d with videoAddress := d.videoPage.setWidth 16 * 0x2000 }
  have hrows : (if d.mixedMode then 160 else 192) ≤ SCREENSIZE_Y := by
    rw [SCREENSIZE_Y]
    split_ifs <;> omega
  obtain ⟨hdone, hpixel⟩ := hiResLines_spec readByte (d := start)
    (fun l hl => h.kept l (lt_of_lt_of_le hl hrows))
  rw [← renderHiRes_eq] at hdone hpixel
  have hswitches : SameSwitches d (d.renderHiRes readByte) := by
    obtain ⟨cache, prev, buf, heq⟩ := hdone.frame
    rw [heq]
    exact ⟨rfl, rfl, rfl, rfl, rfl⟩
  -- the first group of a line has a dark dot to its left
  have hleft : ∀ l < SCREENSIZE_Y, leftDot readByte start l = leftOf readByte d l := by
    intro l hl
    funext g
    cases g with
    | zero => exact h.edge l hl
    | succ g => rfl
  have hrow : ∀ y < SCREENSIZE_Y, ¬ ShowsText d y → y < if d.mixedMode then 160 else 192 := by
    intro y hy htext
    have hrow := loRows_of_not_showsText hy htext
    rw [loRows] at hrow
    split_ifs at hrow ⊢ <;> omega
  refine ⟨hswitches, ⟨?_, ?_, ?_, ?_⟩, ?_, ?_⟩
  · obtain ⟨cache, prev, buf, heq⟩ := hdone.frame
    rw [heq]
    exact h.width
  · obtain ⟨cache, prev, buf, heq⟩ := hdone.frame
    rw [heq]
    exact h.height
  · intro l hl
    by_cases hlast : l < if d.mixedMode then 160 else 192
    · exact hdone.kept_of_lt hlast
    · exact hdone.kept (Nat.not_lt.mp hlast) (h.kept l hl)
  · intro l hl
    by_cases hlast : l < if d.mixedMode then 160 else 192
    · exact (hdone.prev l hlast 0 (by omega)).trans (h.edge l hl)
    · exact (hdone.rest l (Nat.not_lt.mp hlast) 0).2.trans (h.edge l hl)
  · intro fonts frame x y hx hy htext
    have hgroup := hrow y hy htext
    rw [picture_hi htext hhi, hpixel x y hx, hleft y hy]
    refine if_congr ?_ rfl rfl
    rw [drawn_hi hhi, HiChanged, HiDrawn, Redraws, hleft y hy]
    constructor
    · rintro ⟨-, (hcache | hflash) | hprev⟩
      · exact Or.inr (Or.inl hcache)
      · exact Or.inl hflash
      · exact Or.inr (Or.inr hprev)
    · rintro (hflash | hcache | hprev)
      · exact ⟨hgroup, Or.inl (Or.inr hflash)⟩
      · exact ⟨hgroup, Or.inl (Or.inl hcache)⟩
      · exact ⟨hgroup, Or.inr hprev⟩
  · intro x y hx hy htext
    have hgroup := hrow y hy htext
    have hcol : x / 14 < 20 := by
      rw [SCREENSIZE_X] at hx
      omega
    rw [Matched, hswitches.hires_Mode, if_pos hhi, HiChanged, wordOf_congr hswitches.videoPage,
      leftOf_congr hswitches.videoPage, hdone.cache y hgroup _ hcol, hdone.prev y hgroup _ hcol, hleft y hy]
    exact fun hne => hne.elim (fun h => h rfl) fun h => h rfl

/-! ### A frame -/

/-- The end of `ad_Render`: the counter of the frames. -/
def countFrame (d : Device) : Device :=
  let d := { d with flashCycle := d.flashCycle + 1 }
  if d.flashCycle = 30 then { d with flashCycle := 0 } else d

/-- The graphics path that the soft switches select. -/
def drawGraphics (readByte : WORD → BYTE) (d : Device) : Device :=
  if d.textMode = false ∨ d.mixedMode = true then
    if d.hires_Mode = false then d.renderLoRes readByte else d.renderHiRes readByte
  else d

/-- The text path, where the soft switches select it. -/
def drawText (readByte : WORD → BYTE) (fonts : Fonts) (frame : ℤ) (d : Device) : Device :=
  if d.textMode = true ∨ d.mixedMode = true then d.renderText readByte fonts frame else d

theorem countFrame_eq (d : Device) : ∃ n, countFrame d = { d with flashCycle := n } := by
  rw [countFrame]
  dsimp only
  split_ifs
  · exact ⟨0, rfl⟩
  · exact ⟨d.flashCycle + 1, rfl⟩

theorem drawGraphics_spec (readByte : WORD → BYTE) {d : Device} (h : DisplayInv d) :
    GraphicsSpec readByte d (drawGraphics readByte d) := by
  rw [drawGraphics]
  split_ifs with hgraphics hlo
  · exact renderLoRes_spec h hlo
  · exact renderHiRes_spec h (eq_true_of_ne_false hlo)
  · have htext : ∀ y, ShowsText d y := by
      intro y
      rw [not_or] at hgraphics
      exact Or.inl (eq_true_of_ne_false hgraphics.1)
    exact ⟨⟨rfl, rfl, rfl, rfl, rfl⟩, h, fun _ _ _ y _ _ hno => absurd (htext y) hno,
      fun _ y _ _ hno => absurd (htext y) hno⟩

/-- The text path draws the rows of the text, and leaves the rest. -/
theorem drawText_spec (readByte : WORD → BYTE) (fonts : Fonts) (frame : ℤ) (d : Device) :
    (∃ a buf, drawText readByte fonts frame d =
      { d with videoAddress := a, colorbuffer := buf }) ∧
      ∀ x y, x < SCREENSIZE_X → y < SCREENSIZE_Y →
        pixel SCREENSIZE_X (drawText readByte fonts frame d).colorbuffer x y =
          if ShowsText d y then
            textDot fonts frame (glyphOf readByte d (y / 8) (x / 7)) (x % 7) (y % 8)
          else pixel SCREENSIZE_X d.colorbuffer x y := by
  rw [drawText]
  by_cases htext : d.textMode = true ∨ d.mixedMode = true
  · have hlimit : (if d.textMode then 0 else 20) ≤ SCREENTEXT_Y := by
      rw [SCREENTEXT_Y]
      split_ifs <;> omega
    obtain ⟨⟨buf, hframe⟩, hpixel⟩ := textColumns_spec readByte fonts frame
      { d with videoAddress := d.videoPage.setWidth 16 * 0x0400 }
      (if d.textMode then 0 else 20) hlimit
    rw [if_pos htext]
    refine ⟨⟨_, buf, hframe⟩, fun x y hx hy => (hpixel x y hx).trans (if_congr ?_ rfl rfl)⟩
    have hcol := col_lt hx
    rw [SCREENSIZE_Y] at hy
    rw [SCREENTEXT_X, SCREENTEXT_Y, ShowsText]
    by_cases hmode : d.textMode = true
    · rw [if_pos hmode]
      exact iff_of_true ⟨hcol, by omega, by omega⟩ (Or.inl hmode)
    · rw [if_neg hmode]
      refine ⟨fun h => Or.inr ⟨htext.resolve_left hmode, h.2.1⟩, fun h => ?_⟩
      exact ⟨hcol, (h.resolve_left hmode).2, by omega⟩
  · rw [if_neg htext]
    refine ⟨⟨_, _, rfl⟩, fun x y _ _ => (if_neg fun h => ?_).symm⟩
    exact htext (h.imp id And.left)

/-- The paths that the soft switches select. -/
theorem adRender_eq (fonts : Fonts) (frame : ℤ) {d : Device} (h : DisplayInv d) :
    d.adRender readByte fonts frame =
      countFrame (drawText readByte fonts frame (drawGraphics readByte d)) := by
  obtain ⟨hswitches, -, -, -⟩ := drawGraphics_spec readByte h
  rw [drawText, hswitches.textMode, hswitches.mixedMode, drawGraphics]
  cases htext : d.textMode <;> cases hmixed : d.mixedMode <;> cases hhi : d.hires_Mode <;>
    simp [adRender, adGetScreenMode, countFrame, htext, hmixed, hhi]

/-- With the text alone, a frame leaves the caches. -/
theorem adRender_text (readByte : WORD → BYTE) (fonts : Fonts) (frame : ℤ) {d : Device}
    (h : DisplayInv d) (htext : d.textMode = true) (hmixed : d.mixedMode = false) :
    ∃ a buf, d.adRender readByte fonts frame =
      countFrame { d with videoAddress := a, colorbuffer := buf } := by
  obtain ⟨⟨a, buf, hframe⟩, -⟩ := drawText_spec readByte fonts frame d
  have hgraphics : drawGraphics readByte d = d := by
    rw [drawGraphics, if_neg (by rw [htext, hmixed]; decide)]
  exact ⟨a, buf, by rw [adRender_eq fonts frame h, hgraphics, hframe]⟩

/-- What a frame leaves. -/
structure FrameSpec (readByte : WORD → BYTE) (fonts : Fonts) (frame : ℤ) (d e : Device) :
    Prop where
  textMode : e.textMode = d.textMode
  mixedMode : e.mixedMode = d.mixedMode
  hires_Mode : e.hires_Mode = d.hires_Mode
  videoPage : e.videoPage = d.videoPage
  inv : DisplayInv e
  pixel : ∀ x y, x < SCREENSIZE_X → y < SCREENSIZE_Y → pixel SCREENSIZE_X e.colorbuffer x y =
    if ShowsText d y ∨ Drawn readByte d x y then picture readByte fonts frame d x y
    else pixel SCREENSIZE_X d.colorbuffer x y
  matched : ∀ x y, x < SCREENSIZE_X → y < SCREENSIZE_Y → ¬ ShowsText d y → Matched readByte e x y

/-- A pixel shows the picture when it is text or is drawn, and else stays. -/
theorem adRender_spec (readByte : WORD → BYTE) (fonts : Fonts) (frame : ℤ) {d : Device}
    (h : DisplayInv d) :
    FrameSpec readByte fonts frame d (d.adRender readByte fonts frame) := by
  obtain ⟨hswitches, hinv, hgraphics, hmatched⟩ := drawGraphics_spec readByte h
  obtain ⟨⟨a, buf, htext⟩, hpixel⟩ :=
    drawText_spec readByte fonts frame (drawGraphics readByte d)
  obtain ⟨n, hcount⟩ := countFrame_eq (drawText readByte fonts frame (drawGraphics readByte d))
  rw [adRender_eq fonts frame h, hcount]
  refine ⟨?_, ?_, ?_, ?_, ?_, ?_, ?_⟩
  · rw [htext]
    exact hswitches.textMode
  · rw [htext]
    exact hswitches.mixedMode
  · rw [htext]
    exact hswitches.hires_Mode
  · rw [htext]
    exact hswitches.videoPage
  · rw [htext]
    exact ⟨hinv.width, hinv.height, hinv.kept, hinv.edge⟩
  · intro x y hx hy
    refine (hpixel x y hx hy).trans ?_
    rw [glyphOf_congr hswitches.videoPage]
    by_cases hrow : ShowsText d y
    · rw [if_pos ((hswitches.showsText y).mpr hrow), if_pos (Or.inl hrow), picture, if_pos hrow]
    · rw [if_neg fun h => hrow ((hswitches.showsText y).mp h),
        hgraphics fonts frame x y hx hy hrow]
      exact if_congr (or_iff_right hrow).symm rfl rfl
  · intro x y hx hy hrow
    rw [htext]
    exact hmatched x y hx hy hrow

end Paths

end Device

end B2OS
