import B2OS.Apple2.DiskII
import B2OS.Apple2.Screen

/-!
# Runs of the Screen

The emulator takes accesses of the processor, resets, disk changes and frames in any order.
Every reachable state keeps the display invariant, so that a frame leaves the picture except
where it skips a stale pixel.

Inside a graphics mode, from a frame with `flashCycle = 0` on, the caches are `Coherent` with
the screen, and nothing stale is left to skip.

## Main results

* `render_eq_fullRedraw`: inside a graphics mode every frame leaves the picture that a redraw
  from empty caches leaves.
* `render_shows_iff`: a frame leaves the picture exactly when it skips no stale pixel.
-/

namespace B2OS

open Raster

/-! ### Frames of the machine -/

namespace Machine

/-- The byte that `mem_ReadByte` returns. -/
def byteAt (m : Machine) (address : WORD) : BYTE := (m.memReadByte address).1

/-- A read of RAM. -/
theorem byteAt_ram (m : Machine) {address : WORD} (h : address.toNat < RAMSIZE) :
    m.byteAt address = m.mem.ram ⟨address.toNat, h⟩ := by
  rw [byteAt, memReadByte, dif_pos h]

def adRender (fonts : Fonts) (frame : ℤ) (m : Machine) : Machine :=
  m.setDevice (Device.adRender m.byteAt fonts frame)

end Machine

/-- A step of the emulator: what the drive controller sees, the counting of the ticks, a turn
of the disk while the processor waits, or a frame. -/
inductive ScreenOp
  | drive (op : DriveOp)
  | tick (cpu_tick : ULONG)
  | turn
  | render (frame : ℤ)

def screenStep (images : Images) (fonts : Fonts) (x : Cpu × Machine) : ScreenOp → Cpu × Machine
  | .drive op => driveStep images x op
  | .tick cpu_tick => (x.1, { x.2 with cpu_tick := cpu_tick })
  | .turn => (x.1, x.2.setDevice fun d => d.adUpdateFloppyDisk.2)
  | .render frame => (x.1, x.2.adRender fonts frame)

/-! ### The display variables between frames -/

namespace Device

/-- The display variables agree. -/
structure SameDisplay (d d' : Device) : Prop where
  pixelGR : d'.pixelGR = d.pixelGR
  LoResCache : d'.LoResCache = d.LoResCache
  HiResCache : d'.HiResCache = d.HiResCache
  previousBit : d'.previousBit = d.previousBit
  flashCycle : d'.flashCycle = d.flashCycle
  colorbuffer : d'.colorbuffer = d.colorbuffer

theorem SameDisplay.refl (d : Device) : SameDisplay d d := ⟨rfl, rfl, rfl, rfl, rfl, rfl⟩

theorem DisplayInv.sameDisplay {d d' : Device} (h : DisplayInv d) (hs : SameDisplay d d') :
    DisplayInv d' where
  width := hs.pixelGR ▸ h.width
  height := hs.pixelGR ▸ h.height
  kept := by
    intro l hl g hg word hword
    rw [hs.HiResCache] at hword
    rw [hs.previousBit]
    exact h.kept l hl g hg word hword
  edge := hs.previousBit ▸ h.edge

/-- A reset clears the caches and the bits. -/
theorem displayInv_adReset (d : Device) : DisplayInv d.adReset where
  width := rfl
  height := rfl
  kept := by
    intro l _ g _ word hword
    have hzero : word = 0 := BitVec.eq_of_toNat_eq (Int.ofNat.inj hword).symm
    rw [hzero]
    rfl
  edge := fun _ _ => rfl

end Device

open Device

theorem switch_sameDisplay (m : Machine) (address : WORD) (value : BYTE) (WRT : Bool)
    (sw : SoftSwitch) : SameDisplay m.device (m.switch address value WRT sw).2.device := by
  cases sw with
  | moveHead =>
      simp only [Machine.switch, Machine.setDevice, adStepMotor]
      split_ifs <;> exact ⟨rfl, rfl, rfl, rfl, rfl, rfl⟩
  | shiftLatch =>
      simp only [Machine.switch, Machine.setDevice, shiftLatch]
      split_ifs <;> exact ⟨rfl, rfl, rfl, rfl, rfl, rfl⟩
  | paddle pdl =>
      simp only [Machine.switch, adReadPaddle]
      split_ifs <;> exact ⟨rfl, rfl, rfl, rfl, rfl, rfl⟩
  | _ => exact ⟨rfl, rfl, rfl, rfl, rfl, rfl⟩

theorem access_sameDisplay (m : Machine) (a : MemAccess) :
    SameDisplay m.device (m.access a).device :=
  Machine.access_device_inv (.refl m.device) fun value WRT sw _ =>
    switch_sameDisplay m a.address value WRT sw

/-- Every step but a reset and a frame leaves the display variables. -/
theorem screenStep_cases (images : Images) (fonts : Fonts) (x : Cpu × Machine) (op : ScreenOp) :
    SameDisplay x.2.device (screenStep images fonts x op).2.device ∨
      (screenStep images fonts x op).2.device = x.2.device.adReset ∨
      ∃ frame, op = .render frame := by
  cases op with
  | drive op =>
      cases op with
      | access a => exact Or.inl (access_sameDisplay x.2 a)
      | reset => exact Or.inr (Or.inl (Machine.machineReset_device images x))
      | insert drv => exact Or.inl ⟨rfl, rfl, rfl, rfl, rfl, rfl⟩
  | tick cpu_tick => exact Or.inl (.refl _)
  | turn =>
      left
      simp only [screenStep, Machine.setDevice, adUpdateFloppyDisk]
      split_ifs <;> exact ⟨rfl, rfl, rfl, rfl, rfl, rfl⟩
  | render frame => exact Or.inr (Or.inr ⟨frame, rfl⟩)

theorem screenStep_displayInv (images : Images) (fonts : Fonts) (x : Cpu × Machine)
    (op : ScreenOp) (h : DisplayInv x.2.device) :
    DisplayInv (screenStep images fonts x op).2.device := by
  rcases screenStep_cases images fonts x op with hsame | hreset | ⟨frame, rfl⟩
  · exact h.sameDisplay hsame
  · rw [hreset]
    exact displayInv_adReset _
  · exact (adRender_spec _ fonts frame h).inv

/-- Every reachable state keeps the display invariant. -/
theorem displayInv_reachable (images : Images) (fonts : Fonts) (x : Cpu × Machine)
    (l : List ScreenOp) : DisplayInv
      (l.foldl (screenStep images fonts) (Machine.machineInitMachine images x)).2.device := by
  refine foldl_inv (I := fun y : Cpu × Machine => DisplayInv y.2.device)
    (screenStep_displayInv images fonts) l ?_
  rw [Machine.machineInitMachine_device]
  exact displayInv_adReset _

/-- **A frame leaves the picture exactly when every pixel that it skips shows the picture
already.** -/
theorem render_shows_iff (images : Images) (fonts : Fonts) (x : Cpu × Machine)
    (l : List ScreenOp) (frame : ℤ) :
    let m := (l.foldl (screenStep images fonts) (Machine.machineInitMachine images x)).2
    (∀ x y, x < SCREENSIZE_X → y < SCREENSIZE_Y →
        pixel SCREENSIZE_X (m.adRender fonts frame).device.colorbuffer x y =
          picture m.byteAt fonts frame m.device x y) ↔
      ∀ x y, x < SCREENSIZE_X → y < SCREENSIZE_Y → ¬ ShowsText m.device y →
        ¬ Drawn m.byteAt m.device x y →
          pixel SCREENSIZE_X m.device.colorbuffer x y =
            picture m.byteAt fonts frame m.device x y := by
  intro m
  have hspec : FrameSpec m.byteAt fonts frame m.device (m.adRender fonts frame).device :=
    adRender_spec _ fonts frame (displayInv_reachable images fonts x l)
  constructor
  · intro h x y hx hy htext hskip
    rw [← h x y hx hy, hspec.pixel x y hx hy, if_neg]
    exact fun hdraw => hdraw.elim htext hskip
  · intro h x y hx hy
    rw [hspec.pixel x y hx hy]
    split_ifs with hdraw
    · rfl
    · obtain ⟨htext, hskip⟩ := not_or.mp hdraw
      exact h x y hx hy htext hskip

/-! ### Inside a graphics mode -/

namespace Device

/-- The pixels outside the text show what the caches hold. -/
def Coherent (d : Device) : Prop :=
  ∀ x y, x < SCREENSIZE_X → y < SCREENSIZE_Y → ¬ ShowsText d y →
    if d.hires_Mode then
      ∃ word : WORD, d.HiResCache y (2 * (x / 14)) = word.toNat ∧
        pixel SCREENSIZE_X d.colorbuffer x y =
          groupDot word (d.previousBit y (2 * (x / 14))) (x % 14)
    else
      ∃ glyph : BYTE, d.LoResCache (y / 8) (x / 7) = glyph.toNat ∧
        pixel SCREENSIZE_X d.colorbuffer x y = loDot glyph (y % 8)

/-- The graphics soft switches agree, and the text is off. -/
structure SameMode (d d' : Device) : Prop where
  textMode : d'.textMode = false
  mixedMode : d'.mixedMode = d.mixedMode
  hires_Mode : d'.hires_Mode = d.hires_Mode

theorem SameMode.showsText {d d' d'' : Device} (h : SameMode d d') (h' : SameMode d d'') (y : ℕ) :
    ShowsText d' y ↔ ShowsText d'' y := by
  rw [ShowsText, ShowsText, h.textMode, h'.textMode, h.mixedMode, h'.mixedMode]

variable {readByte : WORD → BYTE} {fonts : Fonts} {frame : ℤ} {d e : Device} {x y : ℕ}

/-- A pixel that is skipped shows the picture. -/
theorem Coherent.shows (h : Coherent d) (hx : x < SCREENSIZE_X) (hy : y < SCREENSIZE_Y)
    (htext : ¬ ShowsText d y) (hskip : ¬ Drawn readByte d x y) :
    pixel SCREENSIZE_X d.colorbuffer x y = picture readByte fonts frame d x y := by
  have hcell := h x y hx hy htext
  by_cases hhi : d.hires_Mode = true
  · rw [if_pos hhi] at hcell
    obtain ⟨word, hcache, hpixel⟩ := hcell
    rw [drawn_hi hhi, HiChanged, not_or, not_or, not_not, not_not] at hskip
    obtain ⟨-, hword, hleft⟩ := hskip
    have hsame : word = wordOf readByte d y (x / 14) :=
      BitVec.eq_of_toNat_eq (Int.ofNat.inj (hcache.symm.trans hword))
    rw [picture_hi htext hhi, hpixel, hsame, hleft]
  · rw [if_neg hhi] at hcell
    obtain ⟨glyph, hcache, hpixel⟩ := hcell
    have hlo := eq_false_of_ne_true hhi
    rw [drawn_lo hlo, LoChanged, not_or, not_not] at hskip
    have hsame : glyph = glyphOf readByte d (y / 8) (x / 7) :=
      BitVec.eq_of_toNat_eq (Int.ofNat.inj (hcache.symm.trans hskip.2))
    rw [picture_lo htext hlo, hpixel, hsame]

/-- A frame that redraws everything, or finds the screen coherent, leaves the picture. -/
theorem FrameSpec.shows (h : FrameSpec readByte fonts frame d e)
    (hd : d.flashCycle = 0 ∨ Coherent d) (hx : x < SCREENSIZE_X) (hy : y < SCREENSIZE_Y) :
    Raster.pixel SCREENSIZE_X e.colorbuffer x y = picture readByte fonts frame d x y := by
  rw [h.pixel x y hx hy]
  split_ifs with hdraw
  · rfl
  · obtain ⟨htext, hskip⟩ := not_or.mp hdraw
    rcases hd with hflash | hcoherent
    · exact absurd (Or.inl hflash) hskip
    · exact hcoherent.shows hx hy htext hskip

/-- Such a frame leaves a coherent screen. -/
theorem FrameSpec.coherent (h : FrameSpec readByte fonts frame d e)
    (hd : d.flashCycle = 0 ∨ Coherent d) : Coherent e := by
  intro x y hx hy htext
  have hrow : ¬ ShowsText d y := by
    rwa [ShowsText, ← h.textMode, ← h.mixedMode]
  have hshows := h.shows hd hx hy
  have hmatched := h.matched x y hx hy hrow
  rw [Matched] at hmatched
  split_ifs at hmatched ⊢ with hhi
  · rw [HiChanged, not_or, not_not, not_not] at hmatched
    refine ⟨wordOf readByte e y (x / 14), hmatched.1, ?_⟩
    rw [hshows, picture_hi hrow (h.hires_Mode ▸ hhi), hmatched.2, wordOf_congr h.videoPage,
      leftOf_congr h.videoPage]
  · rw [LoChanged, not_not] at hmatched
    refine ⟨glyphOf readByte e (y / 8) (x / 7), hmatched, ?_⟩
    rw [hshows, picture_lo hrow (h.hires_Mode ▸ eq_false_of_ne_true hhi),
      glyphOf_congr h.videoPage]

/-- A screen stays coherent while the display variables and the mode stay. -/
theorem Coherent.sameDisplay (h : Coherent d) (hs : SameDisplay d e)
    (htext : ∀ y, ShowsText e y ↔ ShowsText d y) (hhi : e.hires_Mode = d.hires_Mode) :
    Coherent e := by
  intro x y hx hy hrow
  have hcell := h x y hx hy fun hd => hrow ((htext y).mpr hd)
  rwa [hhi, hs.HiResCache, hs.previousBit, hs.LoResCache, hs.colorbuffer]

/-- The device with empty caches, as a full redraw finds it. -/
def emptyCaches (d : Device) : Device :=
  { d with
    LoResCache := fun _ _ => -1
    HiResCache := fun _ _ => -1
    previousBit := fun _ _ => 0 }

/-- A redraw from empty caches leaves the picture. -/
theorem fullRedraw_shows (h : DisplayInv d) (hx : x < SCREENSIZE_X) (hy : y < SCREENSIZE_Y) :
    Raster.pixel SCREENSIZE_X (d.emptyCaches.adRender readByte fonts frame).colorbuffer x y =
      picture readByte fonts frame d x y := by
  have hneg : ∀ n : ℕ, (-1 : ℤ) ≠ n := fun n => by omega
  have hinv : DisplayInv d.emptyCaches :=
    ⟨h.width, h.height, fun l _ g _ word hword => absurd hword (hneg word.toNat), fun _ _ => rfl⟩
  have hdraw : Drawn readByte d.emptyCaches x y := by
    right
    split_ifs
    · exact Or.inl (hneg _)
    · exact hneg _
  rw [(adRender_spec _ fonts frame hinv).pixel x y hx hy, if_pos (Or.inr hdraw)]
  rfl

end Device

section Mode

variable {images : Images} {fonts : Fonts}

/-- A step inside a mode keeps the screen coherent. -/
theorem screenStep_coherent {d : Device} {x : Cpu × Machine} (op : ScreenOp)
    (h : DisplayInv x.2.device) (hmode : SameMode d x.2.device) (hc : Coherent x.2.device)
    (hnext : SameMode d (screenStep images fonts x op).2.device) :
    Coherent (screenStep images fonts x op).2.device := by
  rcases screenStep_cases images fonts x op with hsame | hreset | ⟨frame, rfl⟩
  · exact hc.sameDisplay hsame (hnext.showsText hmode)
      (hnext.hires_Mode.trans hmode.hires_Mode.symm)
  · have htext := hnext.textMode
    rw [hreset] at htext
    cases htext
  · exact (adRender_spec _ fonts frame h).coherent (Or.inr hc)

end Mode

/-- A font whose glyphs are dark and whose inverse glyphs are lit. -/
def Fonts.blank : Fonts := ⟨fun _ _ => 0, fun _ _ => 1⟩

theorem Device.SameMode.adRender {d : Device} {m : Machine} {fonts : Fonts} (frame : ℤ)
    (h : SameMode d m.device) (hm : DisplayInv m.device) :
    SameMode d (m.adRender fonts frame).device := by
  have hspec : FrameSpec m.byteAt fonts frame m.device (m.adRender fonts frame).device :=
    adRender_spec _ fonts frame hm
  exact ⟨hspec.textMode.trans h.textMode, hspec.mixedMode.trans h.mixedMode,
    hspec.hires_Mode.trans h.hires_Mode⟩

/-- Soft switch $C050 turns the text off. -/
theorem access_textOff (m : Machine) :
    m.access (.read 0xC050) = m.setDevice fun d => { d with textMode := false } := rfl

/-- A machine that shows the text page of zeros, with caches that match it: a frame in text
mode, then the text turned off, and the next frame leaves the text. -/
theorem textOff_skips {m : Machine} (hinv : DisplayInv m.device)
    (htextMode : m.device.textMode = true) (hmixedMode : m.device.mixedMode = false)
    (hhires : m.device.hires_Mode = false) (hpage : m.device.videoPage = 1)
    (hflash : m.device.flashCycle = 0) (hcache : m.device.LoResCache 0 0 = 0)
    (hzero : m.mem.ram ⟨0x400, by decide⟩ = 0) :
    let m' := (m.adRender .blank 0).access (.read 0xC050)
    pixel SCREENSIZE_X (m'.adRender .blank 1).device.colorbuffer 0 0 ≠
      picture m'.byteAt .blank 1 m'.device 0 0 := by
  intro m'
  have hglyphZero : ∀ m' : Machine, m'.mem = m.mem → m'.device.videoPage = 1 →
      glyphOf m'.byteAt m'.device (0 / 8) (0 / 7) = 0 := by
    intro m' hmem hpage'
    have haddress : BitVec.setWidth 16 m'.device.videoPage * 0x0400 + offsetGR (0 / 8) +
        BitVec.ofNat 16 (0 / 7) = 0x400 := by
      rw [hpage']
      rfl
    rw [glyphOf, glyphAt, haddress, m'.byteAt_ram (by decide), hmem]
    exact hzero
  -- the first frame draws the text, and the caches stay
  have hspec := adRender_spec m.byteAt Fonts.blank 0 hinv
  have hlit : pixel SCREENSIZE_X (m.device.adRender m.byteAt .blank 0).colorbuffer 0 0 = 15 := by
    have htext : ShowsText m.device 0 := Or.inl htextMode
    rw [hspec.pixel 0 0 (by decide) (by decide), if_pos (Or.inl htext), picture, if_pos htext,
      hglyphZero m rfl hpage]
    decide
  obtain ⟨a, buf, hfirst⟩ := adRender_text m.byteAt Fonts.blank 0 hinv htextMode hmixedMode
  have hcount : countFrame { m.device with videoAddress := a, colorbuffer := buf } =
      { m.device with videoAddress := a, colorbuffer := buf, flashCycle := 1 } := by
    rw [countFrame, hflash]
    rfl
  rw [hfirst, hcount] at hlit hspec
  -- the second frame skips the cell
  have hm' : m'.device = { m.device with
      videoAddress := a, colorbuffer := buf, flashCycle := 1, textMode := false } := by
    rw [show m' = _ from access_textOff _, Machine.setDevice, Machine.adRender,
      Machine.setDevice, hfirst, hcount]
  have htextOff : m'.device.textMode = false := congrArg textMode hm'
  have hmixed : m'.device.mixedMode = false := (congrArg mixedMode hm').trans hmixedMode
  have hlo : m'.device.hires_Mode = false := (congrArg hires_Mode hm').trans hhires
  have hcycle : m'.device.flashCycle = 1 := congrArg flashCycle hm'
  have hold : m'.device.LoResCache 0 0 = 0 :=
    (congrArg (fun d => d.LoResCache 0 0) hm').trans hcache
  have hglyph : glyphOf m'.byteAt m'.device (0 / 8) (0 / 7) = 0 :=
    hglyphZero m' rfl ((congrArg videoPage hm').trans hpage)
  have hrow : ¬ ShowsText m'.device 0 := by
    rw [ShowsText, htextOff, hmixed]
    decide
  have hskip : ¬ Drawn m'.byteAt m'.device 0 0 := by
    rw [drawn_lo hlo, LoChanged, hglyph, hcycle, not_or, not_not]
    refine ⟨by decide, ?_⟩
    rw [hold]
    rfl
  have hinv' : DisplayInv m'.device := by
    rw [hm']
    exact ⟨hspec.inv.width, hspec.inv.height, hspec.inv.kept, hspec.inv.edge⟩
  have hstale : (m'.adRender .blank 1).device.colorbuffer =
      (m'.device.adRender m'.byteAt .blank 1).colorbuffer := rfl
  rw [hstale, (adRender_spec _ _ _ hinv').pixel 0 0 (by decide) (by decide),
    if_neg (not_or.mpr ⟨hrow, hskip⟩), picture_lo hrow hlo, hglyph, hm', hlit]
  decide

/-- The text page of zeros, which a fresh emulator shows, stays on the screen when the text is
turned off: the caches of a fresh emulator match it. -/
theorem textOff_leaves_text :
    ¬ ∀ (l : List ScreenOp) (frame : ℤ),
      let m := (l.foldl (screenStep .blank .blank)
        (Machine.machineInitMachine .blank (.initial, .initial))).2
      ∀ x y, x < SCREENSIZE_X → y < SCREENSIZE_Y →
        pixel SCREENSIZE_X (m.adRender .blank frame).device.colorbuffer x y =
          picture m.byteAt .blank frame m.device x y := by
  intro h
  obtain ⟨htext, hmixed, hhires, hpage, hflash, hcache, hzero⟩ :
      let m := (Machine.machineInitMachine .blank (.initial, .initial)).2
      m.device.textMode = true ∧ m.device.mixedMode = false ∧ m.device.hires_Mode = false ∧
        m.device.videoPage = 1 ∧ m.device.flashCycle = 0 ∧ m.device.LoResCache 0 0 = 0 ∧
        m.mem.ram ⟨0x400, by decide⟩ = 0 := by decide
  exact textOff_skips (displayInv_reachable .blank .blank (.initial, .initial) [])
    htext hmixed hhires hpage hflash hcache hzero
    (h [.render 0, .drive (.access (.read 0xC050))] 1 0 0 (by decide) (by decide))

end B2OS
