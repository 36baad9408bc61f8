import B2OS.Apple2.ScreenRun

/-!
# The Reads of the Display

`ad_Render` reads video memory through `mem_ReadByte`, as the processor does, so that a read of
a soft switch would change the machine. This module embeds `ad_Render` once more, on the machine
and with its reads: every condition is looked at where the source looks at it, after the reads
before it. A `Rendering` keeps the addresses that were read.

The pages of video memory lie below $C000, in RAM. A frame of the machine with its effects is
therefore the frame of `Machine.adRender`, in which a read is a function of the address.

## Main results

* `Machine.render_shows`: the frame with its reads follows the frame without effects, and every
  address that it reads lies in RAM.
* `Machine.render_erase`: nothing but the variables of the display changes.
-/

namespace B2OS

/-- The machine in the course of a frame, with the addresses that the frame has read, the last
one first. -/
structure Rendering where
  machine : Machine
  reads : List WORD

namespace Device

/-- The second part of the body of the low resolution path: a cell is drawn. -/
def drawLoRes (glyph : BYTE) (line col : ℕ) (d : Device) : Device :=
  let d := { d with LoResCache := setAt2 d.LoResCache line col glyph.toNat }
  let colorIdx := glyph &&& 0x0F
  let d := { d with colorbuffer := adDrawRectIndex d.pixelGR colorIdx d.colorbuffer }
  let d : Device := { d with pixelGR := { d.pixelGR with y := d.pixelGR.y + 4 } }
  let colorIdx := (glyph &&& 0xF0) >>> 4
  { d with colorbuffer := adDrawRectIndex d.pixelGR colorIdx d.colorbuffer }

/-- The second part of the body of the high resolution path: a group is drawn. -/
def drawHiRes (word : WORD) (line col : ℕ) (d : Device) : Device :=
  let s := dotLoop word line 15
    { bit := 0, colorSet := bits word 7 * 4, pbit := d.previousBit line col, even := 0,
      x := col * 7, colorbuffer := d.colorbuffer }
  let d := { d with
    colorbuffer := s.colorbuffer
    HiResCache := setAt2 d.HiResCache line col word.toNat }
  if col < 37 ∧ d.previousBit line (col + 2) ≠ s.pbit then
    { d with
      previousBit := setAt2 d.previousBit line (col + 2) s.pbit
      HiResCache := setAt2 d.HiResCache line (col + 2) (-1) }
  else d

/-- The second part of the body of the text path: a glyph is drawn. -/
def drawGlyph (fonts : Fonts) (frame : ℤ) (glyph : BYTE) (line col : ℕ) (d : Device) : Device :=
  let fontattr := fontAttr glyph
  let glyph := fontNum glyph
  if fontattr = .FONT_NORMAL ∨ (fontattr = .FONT_FLASH ∧ frame < 15) then
    { d with colorbuffer :=
        afRenderFont fonts glyph.toNat (col * FONT_X) (line * FONT_Y) false d.colorbuffer }
  else
    { d with colorbuffer :=
        afRenderFont fonts glyph.toNat (col * FONT_X) (line * FONT_Y) true d.colorbuffer }

theorem hiResGroup_drawn (readByte : WORD → BYTE) (line col : ℕ) (d : Device) :
    d.hiResGroup readByte line col =
      let word : WORD :=
        ((readByte (d.videoAddress + offsetHGR line + BitVec.ofNat 16 col + 1)).setWidth 16 <<< 8) +
          (readByte (d.videoAddress + offsetHGR line + BitVec.ofNat 16 col)).setWidth 16
      if d.HiResCache line col ≠ word.toNat ∨ d.flashCycle = 0 then d.drawHiRes word line col
      else d := rfl

end Device

namespace Rendering

/-! ### The frame with its reads -/

def device (r : Rendering) : Device := r.machine.device

def setDevice (f : Device → Device) (r : Rendering) : Rendering :=
  { r with machine := r.machine.setDevice f }

def memReadByte (address : WORD) (r : Rendering) : BYTE × Rendering :=
  let (value, m) := r.machine.memReadByte address
  (value, ⟨m, address :: r.reads⟩)

/-- The body for `line` and `col` of the low resolution path. -/
def loResCell (line col : ℕ) (r : Rendering) : Rendering :=
  let r := r.setDevice fun d => { d with pixelGR := { d.pixelGR with y := (line : ℤ) * 8 } }
  let (glyph, r) := r.memReadByte (r.device.videoAddress + offsetGR line + BitVec.ofNat 16 col)
  if r.device.LoResCache line col ≠ glyph.toNat ∨ r.device.flashCycle = 0 then
    r.setDevice (Device.drawLoRes glyph line col)
  else r

/-- The loop over the lines of a column. -/
def loResColumn (col : ℕ) (r : Rendering) : Rendering :=
  let r := r.setDevice fun d => { d with pixelGR := { d.pixelGR with x := (col : ℤ) * 7 } }
  forWhile (fun line r => line < if r.device.mixedMode then 20 else 24)
    (fun line r => r.loResCell line col) 24 0 r

def renderLoRes (r : Rendering) : Rendering :=
  let r := r.setDevice fun d => { d with videoAddress := d.videoPage.setWidth 16 * 0x0400 }
  forUpTo loResColumn 40 r

/-- The body for `line` and `col` of the high resolution path. -/
def hiResGroup (line col : ℕ) (r : Rendering) : Rendering :=
  let (hi, r) := r.memReadByte
    (r.device.videoAddress + offsetHGR line + BitVec.ofNat 16 col + 1)
  let (lo, r) := r.memReadByte (r.device.videoAddress + offsetHGR line + BitVec.ofNat 16 col)
  let word : WORD := (hi.setWidth 16 <<< 8) + lo.setWidth 16
  if r.device.HiResCache line col ≠ word.toNat ∨ r.device.flashCycle = 0 then
    r.setDevice (Device.drawHiRes word line col)
  else r

def renderHiRes (r : Rendering) : Rendering :=
  let r := r.setDevice fun d => { d with videoAddress := d.videoPage.setWidth 16 * 0x2000 }
  forWhile (fun line r => line < if r.device.mixedMode then 160 else 192)
    (fun line r => forUpTo (fun i r => r.hiResGroup line (2 * i)) 20 r) 192 0 r

/-- The body for `line` and `col` of the text path. -/
def textCell (fonts : Fonts) (frame : ℤ) (line col : ℕ) (r : Rendering) : Rendering :=
  let (glyph, r) := r.memReadByte (r.device.videoAddress + offsetGR line + BitVec.ofNat 16 col)
  r.setDevice (Device.drawGlyph fonts frame glyph line col)

def renderText (fonts : Fonts) (frame : ℤ) (r : Rendering) : Rendering :=
  let r := r.setDevice fun d => { d with videoAddress := d.videoPage.setWidth 16 * 0x0400 }
  let linelimit := if r.device.textMode then 0 else 20
  forUpTo (fun col r => forUpTo (fun n r => r.textCell fonts frame (linelimit + n) col)
    (SCREENTEXT_Y - linelimit) r) SCREENTEXT_X r

def adRender (fonts : Fonts) (frame : ℤ) (r : Rendering) : Rendering :=
  let screenmode := r.device.adGetScreenMode
  let r :=
    if screenmode = .LORES_MODE ∨ screenmode = .HIRES_MODE ∨
        screenmode = .LORES_MIX_MODE ∨ screenmode = .HIRES_MIX_MODE then
      if r.device.hires_Mode = false then r.renderLoRes else r.renderHiRes
    else r
  let r :=
    if screenmode = .TEXT_MODE ∨ screenmode = .LORES_MIX_MODE ∨
        screenmode = .HIRES_MIX_MODE then
      r.renderText fonts frame
    else r
  let r := r.setDevice fun d => { d with flashCycle := d.flashCycle + 1 }
  if r.device.flashCycle = 30 then r.setDevice fun d => { d with flashCycle := 0 } else r

end Rendering

/-! ### The addresses of video memory -/

theorem offsetGR_le {line : ℕ} (hline : line < 24) : (offsetGR line).toNat ≤ 0x3D0 := by
  have hall : ∀ line < 24, (offsetGR line).toNat ≤ 0x3D0 := by decide
  exact hall line hline

set_option maxRecDepth 4000 in
theorem offsetHGR_le {line : ℕ} (hline : line < 192) : (offsetHGR line).toNat ≤ 0x1FD0 := by
  have hall : ∀ line < 192, (offsetHGR line).toNat ≤ 0x1FD0 := by decide
  exact hall line hline

/-- The address of the second byte of a column, or of the first one. -/
theorem videoAddress_lt {base offset : WORD} {col : ℕ} (hbase : base.toNat ≤ 0x4000)
    (hoffset : offset.toNat ≤ 0x1FD0) (hcol : col < 40) :
    (base + offset + BitVec.ofNat 16 col).toNat < RAMSIZE ∧
      (base + offset + BitVec.ofNat 16 col + 1).toNat < RAMSIZE := by
  rw [RAMSIZE]
  constructor <;> bv_omega

/-! ### The frame without effects -/

/-- The rendering has come to the devices `d` from the machine `m`, and has read RAM only. -/
structure Follows (m : Machine) (d : Device) (r : Rendering) : Prop where
  machine : r.machine = m.withDevice d
  reads : ∀ a ∈ r.reads, a.toNat < RAMSIZE

namespace Follows

variable {m : Machine} {d : Device} {r : Rendering}

theorem device (h : Follows m d r) : r.device = d := by
  rw [Rendering.device, h.machine]
  rfl

theorem setDevice (h : Follows m d r) (f : Device → Device) :
    Follows m (f d) (r.setDevice f) where
  machine := by
    rw [Rendering.setDevice, h.machine]
    rfl
  reads := h.reads

/-- A read of RAM returns the byte there and changes nothing. -/
theorem read (h : Follows m d r) {a : WORD} (ha : a.toNat < RAMSIZE) :
    ∃ r', r.memReadByte a = (m.byteAt a, r') ∧ Follows m d r' := by
  have hread : r.machine.memReadByte a = (m.byteAt a, r.machine) := by
    rw [m.byteAt_ram ha, h.machine, Machine.memReadByte, dif_pos ha]
    rfl
  refine ⟨⟨r.machine, a :: r.reads⟩, ?_, h.machine, ?_⟩
  · rw [Rendering.memReadByte, hread]
  · intro b hb
    rcases List.mem_cons.mp hb with rfl | hb
    · exact ha
    · exact h.reads b hb

theorem loResCell (h : Follows m d r) {line col : ℕ} (hbase : d.videoAddress.toNat ≤ 0x4000)
    (hline : line < 24) (hcol : col < 40) :
    Follows m (d.loResCell m.byteAt line col) (r.loResCell line col) := by
  have hset := h.setDevice fun d => { d with pixelGR := { d.pixelGR with y := (line : ℤ) * 8 } }
  have haddress := videoAddress_lt hbase ((offsetGR_le hline).trans (by decide)) hcol
  obtain ⟨r', hread, h'⟩ := hset.read haddress.1
  rw [Rendering.loResCell]
  simp only [hset.device, hread, h'.device]
  rw [Device.loResCell]
  split_ifs with hdraw
  · exact h'.setDevice (Device.drawLoRes _ line col)
  · exact h'

theorem hiResGroup (h : Follows m d r) {line col : ℕ} (hbase : d.videoAddress.toNat ≤ 0x4000)
    (hline : line < 192) (hcol : col < 40) :
    Follows m (d.hiResGroup m.byteAt line col) (r.hiResGroup line col) := by
  obtain ⟨hlo, hhi⟩ := videoAddress_lt hbase (offsetHGR_le hline) hcol
  obtain ⟨r₁, hread₁, h₁⟩ := h.read hhi
  obtain ⟨r₂, hread₂, h₂⟩ := h₁.read hlo
  rw [Rendering.hiResGroup]
  simp only [h.device, hread₁, h₁.device, hread₂, h₂.device]
  rw [Device.hiResGroup_drawn]
  dsimp only
  split_ifs with hdraw
  · exact h₂.setDevice (Device.drawHiRes _ line col)
  · exact h₂

theorem textCell (h : Follows m d r) (fonts : Fonts) (frame : ℤ) {line col : ℕ}
    (hbase : d.videoAddress.toNat ≤ 0x4000) (hline : line < 24) (hcol : col < 40) :
    Follows m (d.textCell m.byteAt fonts frame line col) (r.textCell fonts frame line col) := by
  have haddress := videoAddress_lt hbase ((offsetGR_le hline).trans (by decide)) hcol
  obtain ⟨r', hread, h'⟩ := h.read haddress.1
  rw [Rendering.textCell]
  simp only [h.device, hread]
  exact h'.setDevice (Device.drawGlyph fonts frame _ line col)

end Follows

/-! ### The loops -/

namespace Device

/-- Only the caches, the rectangle and the pixels differ. -/
def OnlyDisplay (d d' : Device) : Prop :=
  ∃ rect lo hi prev buf, d' = { d with
    pixelGR := rect, LoResCache := lo, HiResCache := hi, previousBit := prev, colorbuffer := buf }

theorem OnlyDisplay.refl (d : Device) : OnlyDisplay d d := ⟨_, _, _, _, _, rfl⟩

theorem OnlyDisplay.trans {d d' d'' : Device} (h : OnlyDisplay d d') (h' : OnlyDisplay d' d'') :
    OnlyDisplay d d'' := by
  obtain ⟨rect, lo, hi, prev, buf, rfl⟩ := h
  obtain ⟨rect', lo', hi', prev', buf', rfl⟩ := h'
  exact ⟨rect', lo', hi', prev', buf', rfl⟩

theorem OnlyDisplay.mixedMode {d d' : Device} (h : OnlyDisplay d d') :
    d'.mixedMode = d.mixedMode := by
  obtain ⟨rect, lo, hi, prev, buf, rfl⟩ := h
  rfl

theorem OnlyDisplay.videoPage {d d' : Device} (h : OnlyDisplay d d') :
    d'.videoPage = d.videoPage := by
  obtain ⟨rect, lo, hi, prev, buf, rfl⟩ := h
  rfl

theorem OnlyDisplay.videoAddress {d d' : Device} (h : OnlyDisplay d d') :
    d'.videoAddress = d.videoAddress := by
  obtain ⟨rect, lo, hi, prev, buf, rfl⟩ := h
  rfl

theorem LoResFrame.onlyDisplay {d d' : Device} (h : LoResFrame d d') : OnlyDisplay d d' := by
  obtain ⟨rect, cache, buf, rfl, -, -⟩ := h
  exact ⟨_, _, _, _, _, rfl⟩

theorem HiResFrame.onlyDisplay {d d' : Device} (h : HiResFrame d d') : OnlyDisplay d d' := by
  obtain ⟨cache, prev, buf, rfl⟩ := h
  exact ⟨_, _, _, _, _, rfl⟩

theorem TextFrame.onlyDisplay {d d' : Device} (h : TextFrame d d') : OnlyDisplay d d' := by
  obtain ⟨buf, rfl⟩ := h
  exact ⟨_, _, _, _, _, rfl⟩

end Device

open Device

/-- The page that is shown is one of the two. -/
def Paged (d : Device) : Prop := d.videoPage = 1 ∨ d.videoPage = 2

theorem Paged.lo {d : Device} (h : Paged d) :
    (d.videoPage.setWidth 16 * 0x0400 : WORD).toNat ≤ 0x4000 := by
  rcases h with h | h <;> rw [h] <;> decide

theorem Paged.hi {d : Device} (h : Paged d) :
    (d.videoPage.setWidth 16 * 0x2000 : WORD).toNat ≤ 0x4000 := by
  rcases h with h | h <;> rw [h] <;> decide

/-- In the course of a path that starts with the devices `e`. -/
structure Scans (m : Machine) (e d : Device) (r : Rendering) : Prop where
  follows : Follows m d r
  only : OnlyDisplay e d

namespace Scans

variable {m : Machine} {e d : Device} {r : Rendering}

theorem base (h : Scans m e d r) (hbase : e.videoAddress.toNat ≤ 0x4000) :
    d.videoAddress.toNat ≤ 0x4000 := h.only.videoAddress ▸ hbase

theorem loResColumn (h : Scans m e d r) (hbase : e.videoAddress.toNat ≤ 0x4000) {col : ℕ}
    (hcol : col < 40) :
    Scans m e (Device.loResColumn m.byteAt col d) (Rendering.loResColumn col r) := by
  have hrows : d.loRows ≤ 24 := by
    rw [loRows]
    split_ifs <;> omega
  have hset : Scans m e { d with pixelGR := { d.pixelGR with x := (col : ℤ) * 7 } }
      (r.setDevice fun d => { d with pixelGR := { d.pixelGR with x := (col : ℤ) * 7 } }) :=
    ⟨h.follows.setDevice fun d => { d with pixelGR := { d.pixelGR with x := (col : ℤ) * 7 } },
      h.only.trans ⟨_, _, _, _, _, rfl⟩⟩
  rw [Device.loResColumn, Rendering.loResColumn]
  refine forWhile_rel (Scans m e) hrows hset (fun line d' r' hline => ?_)
    fun line hline d' r' hcell => ?_
  · rw [decide_eq_true_iff, hline.follows.device, hline.only.mixedMode, loRows, h.only.mixedMode]
  · exact ⟨hcell.follows.loResCell (hcell.base hbase) (hline.trans_le hrows) hcol,
      hcell.only.trans (d'.loResCell_frame line col).1.onlyDisplay⟩

theorem renderLoRes (h : Follows m d r) (hpage : Paged d) :
    Scans m { d with videoAddress := d.videoPage.setWidth 16 * 0x0400 }
      (d.renderLoRes m.byteAt) r.renderLoRes := by
  have hset := h.setDevice fun d => { d with videoAddress := d.videoPage.setWidth 16 * 0x0400 }
  rw [renderLoRes_eq, Rendering.renderLoRes]
  exact forUpTo_rel (Scans m _) ⟨hset, .refl _⟩
    fun col hcol d' r' hscan => hscan.loResColumn hpage.lo hcol

theorem hiResLine (h : Scans m e d r) (hbase : e.videoAddress.toNat ≤ 0x4000) {line : ℕ}
    (hline : line < 192) :
    Scans m e (forUpTo (fun i d => d.hiResGroup m.byteAt line (2 * i)) 20 d)
      (forUpTo (fun i r => r.hiResGroup line (2 * i)) 20 r) :=
  forUpTo_rel (Scans m e) h fun i hi d' r' hgroup =>
    ⟨hgroup.follows.hiResGroup (hgroup.base hbase) hline (by omega),
      hgroup.only.trans (hiResGroup_spec d' line i).frame.onlyDisplay⟩

theorem renderHiRes (h : Follows m d r) (hpage : Paged d) :
    Scans m { d with videoAddress := d.videoPage.setWidth 16 * 0x2000 }
      (d.renderHiRes m.byteAt) r.renderHiRes := by
  have hset := h.setDevice fun d => { d with videoAddress := d.videoPage.setWidth 16 * 0x2000 }
  have hrows : (if d.mixedMode then 160 else 192) ≤ 192 := by split_ifs <;> omega
  rw [Device.renderHiRes, Rendering.renderHiRes]
  refine forWhile_rel (Scans m _) hrows ⟨hset, .refl _⟩ (fun line d' r' hscan => ?_)
    fun line hline d' r' hscan => hscan.hiResLine hpage.hi (hline.trans_le hrows)
  rw [decide_eq_true_iff, hscan.follows.device, hscan.only.mixedMode]

theorem renderText (h : Follows m d r) (hpage : Paged d) (fonts : Fonts) (frame : ℤ) :
    Scans m { d with videoAddress := d.videoPage.setWidth 16 * 0x0400 }
      (d.renderText m.byteAt fonts frame) (r.renderText fonts frame) := by
  have hset := h.setDevice fun d => { d with videoAddress := d.videoPage.setWidth 16 * 0x0400 }
  have hlimit : (if d.textMode then 0 else 20) ≤ SCREENTEXT_Y := by
    rw [SCREENTEXT_Y]
    split_ifs <;> omega
  rw [Device.renderText, Rendering.renderText]
  simp only [hset.device]
  refine forUpTo_rel (Scans m _) ⟨hset, .refl _⟩ fun col hcol d' r' hscan => ?_
  refine forUpTo_rel (Scans m _) hscan fun n hn d' r' hcell => ?_
  have hline : (if d.textMode then 0 else 20) + n < 24 := by
    rw [SCREENTEXT_Y] at hn hlimit
    omega
  exact ⟨hcell.follows.textCell fonts frame (hcell.base hpage.lo) hline hcol,
    hcell.only.trans (TextFrame.onlyDisplay ⟨_, textCell_eq fonts frame _ col d'⟩)⟩

end Scans

/-! ### The frame -/

/-- The devices without the variables of the display. -/
def Device.eraseDisplay (d : Device) : Device :=
  { d with
    videoAddress := 0
    pixelGR := ⟨0, 0, 0, 0⟩
    LoResCache := fun _ _ => 0
    HiResCache := fun _ _ => 0
    previousBit := fun _ _ => 0
    flashCycle := 0
    colorbuffer := fun _ => 0 }

theorem Device.OnlyDisplay.erase {d d' : Device} (h : OnlyDisplay d d') :
    d'.eraseDisplay = d.eraseDisplay := by
  obtain ⟨rect, lo, hi, prev, buf, rfl⟩ := h
  rfl

/-- A rendering that started with the devices `e` has come to `d`, and nothing but the display
has changed. -/
structure Shows (m : Machine) (e d : Device) (r : Rendering) : Prop where
  follows : Follows m d r
  erase : d.eraseDisplay = e.eraseDisplay

namespace Shows

variable {m : Machine} {e d d' : Device} {r r' : Rendering}

theorem ite {c : Prop} [Decidable c] (ht : Shows m e d r) (he : Shows m e d' r') :
    Shows m e (if c then d else d') (if c then r else r') := by
  split_ifs
  · exact ht
  · exact he

theorem paged (h : Shows m e d r) (hpage : Paged e) : Paged d := by
  have hsame : d.eraseDisplay.videoPage = e.eraseDisplay.videoPage :=
    congrArg Device.videoPage h.erase
  exact hpage.imp hsame.trans hsame.trans

/-- A path leaves the display only. -/
theorem scan (h : Shows m e d r) {d₁ : Device} (hscan : Scans m d₁ d' r')
    (herase : d₁.eraseDisplay = d.eraseDisplay) : Shows m e d' r' :=
  ⟨hscan.follows, (hscan.only.erase.trans herase).trans h.erase⟩

theorem adRender (h : Follows m d r) (hpage : Paged d) (fonts : Fonts) (frame : ℤ) :
    Shows m d (d.adRender m.byteAt fonts frame) (r.adRender fonts frame) := by
  have hstart : Shows m d d r := ⟨h, rfl⟩
  have hgraphics := ite (c := d.adGetScreenMode = .LORES_MODE ∨ d.adGetScreenMode = .HIRES_MODE ∨
      d.adGetScreenMode = .LORES_MIX_MODE ∨ d.adGetScreenMode = .HIRES_MIX_MODE)
    (ite (c := d.hires_Mode = false) (hstart.scan (Scans.renderLoRes h hpage) rfl)
      (hstart.scan (Scans.renderHiRes h hpage) rfl)) hstart
  have htext := ite (c := d.adGetScreenMode = .TEXT_MODE ∨ d.adGetScreenMode = .LORES_MIX_MODE ∨
      d.adGetScreenMode = .HIRES_MIX_MODE)
    (hgraphics.scan (Scans.renderText hgraphics.follows (hgraphics.paged hpage) fonts frame) rfl)
    hgraphics
  have hcount := htext.follows.setDevice fun d => { d with flashCycle := d.flashCycle + 1 }
  rw [Device.adRender, Rendering.adRender]
  simp only [h.device]
  rw [hcount.device]
  exact ite ⟨hcount.setDevice fun d => { d with flashCycle := 0 }, htext.erase⟩
    ⟨hcount, htext.erase⟩

end Shows

namespace Machine

/-- `machine_Render`: the frame with its reads. -/
def render (fonts : Fonts) (frame : ℤ) (m : Machine) : Rendering :=
  Rendering.adRender fonts frame ⟨m, []⟩

def eraseDisplay (m : Machine) : Machine := m.setDevice Device.eraseDisplay

/-- The frame with its reads is the frame without effects, and all of its reads are of RAM. -/
theorem render_shows {m : Machine} (hpage : Paged m.device) (fonts : Fonts) (frame : ℤ) :
    Shows m m.device (m.adRender fonts frame).device (m.render fonts frame) := by
  have hstart : Follows m m.device ⟨m, []⟩ := ⟨rfl, fun a ha => absurd ha List.not_mem_nil⟩
  exact Shows.adRender hstart hpage fonts frame

theorem render_eq {m : Machine} (hpage : Paged m.device) (fonts : Fonts) (frame : ℤ) :
    (m.render fonts frame).machine = m.adRender fonts frame :=
  (render_shows hpage fonts frame).follows.machine

theorem render_erase {m : Machine} (hpage : Paged m.device) (fonts : Fonts) (frame : ℤ) :
    (m.render fonts frame).machine.eraseDisplay = m.eraseDisplay := by
  have hshows := render_shows hpage fonts frame
  rw [hshows.follows.machine]
  exact congrArg m.withDevice hshows.erase

end Machine

end B2OS
