import B2OS.Lib.ByteMemory
import B2OS.Lib.Fill
import B2OS.Lib.Raster
import Mathlib.Tactic.Ring

/-!
# Drawing a Rectangle

This module embeds `k_drawRect` of `Src/vga.c`, with the arithmetic of its `int` and `unsigned int`
variables on 32 bits. A pixel has three bytes, and the pixels of a row lie behind each other, as do
the rows.

The loop over the rows runs to `height*2`. As many rows again as the rectangle has are painted
below it, and behind the frame buffer when the rectangle is at its end.

## Main results

* `kDrawRect_eq`: the loops end, and paint twice the rows.
* `fills_rows`: the rows that are painted.
* `drawsRect_iff`: the rectangle is all that is painted exactly when the bytes of the rows below it
  have the colour already.
-/

namespace B2OS.Vga

open ByteMemory (Addr Memory store8)
open Fill

/-- The fields of `Video_Info` that describe the screen. -/
structure VideoInfo where
  width : BitVec 32
  height : BitVec 32
  bpp : BitVec 8
  pitch : BitVec 16
  frameBuffer : Addr

/-! ### The function -/

/-- Values of a variable of 32 bits: a loop that has not ended after as many turns does not end. -/
def LOOP_TURNS : ℕ := 2 ^ 32

/-- The body of the loop over the columns. -/
def drawColumn (frame : Addr) (offset color x : BitVec 32) (mem : Memory) : Memory :=
  let mem := store8 mem (frame + (offset + x + 0)) ((color &&& 0xFF).setWidth 8)
  let mem := store8 mem (frame + (offset + x + 1)) (((color &&& 0xFF00) >>> 8).setWidth 8)
  store8 mem (frame + (offset + x + 2)) (((color &&& 0xFF0000) >>> 16).setWidth 8)

def kDrawRect (vgainfo : VideoInfo) (xpos ypos width height color : BitVec 32) (mem : Memory) :
    Option Memory :=
  let frame := vgainfo.frameBuffer
  forLoop (fun y => decide (y < height * 2)) (fun y => y + 1) (fun y mem =>
    let offset := vgainfo.width * 3 * (ypos + y) + xpos * 3
    forLoop (fun x => decide (x < width * 3)) (fun x => x + 3)
      (fun x mem => some (drawColumn frame offset color x mem)) LOOP_TURNS 0 mem)
    LOOP_TURNS 0 mem

/-! ### The screen -/

/-- The bytes of a pixel with three bytes: blue, green and red. -/
def colorByte (color : BitVec 32) (k : ℕ) : BitVec 8 := color.extractLsb' (8 * k) 8

/-- Byte `k` of the pixel at column `x` and row `y`. -/
def byteAddr (vgainfo : VideoInfo) (i : ℕ × ℕ × ℕ) : Addr :=
  vgainfo.frameBuffer + BitVec.ofNat 32 (vgainfo.pitch.toNat * i.2.1 + 3 * i.1 + i.2.2)

/-- The bytes of the pixels of a rectangle. -/
def Rect (xpos ypos width height : ℕ) : Set (ℕ × ℕ × ℕ) :=
  {i | (xpos ≤ i.1 ∧ i.1 < xpos + width) ∧ (ypos ≤ i.2.1 ∧ i.2.1 < ypos + height) ∧ i.2.2 < 3}

/-- A screen of 24 bits a pixel, without a gap between its rows, whose frame buffer has room in the
address space. -/
structure TrueColor (vgainfo : VideoInfo) : Prop where
  bpp : vgainfo.bpp = 24
  pitch : vgainfo.pitch.toNat = 3 * vgainfo.width.toNat
  size : vgainfo.pitch.toNat * vgainfo.height.toNat ≤ 2 ^ 32

/-- The rectangle lies inside the screen. -/
structure Inside (vgainfo : VideoInfo) (xpos ypos width height : BitVec 32) : Prop where
  right : xpos.toNat + width.toNat ≤ vgainfo.width.toNat
  bottom : ypos.toNat + height.toNat ≤ vgainfo.height.toNat

/-- The rectangle is painted: its bytes are those of the colour, and no other byte has changed. -/
def DrawsRect (vgainfo : VideoInfo) (xpos ypos width height color : BitVec 32)
    (mem mem' : Memory) : Prop :=
  Fills (byteAddr vgainfo) (fun i => colorByte color i.2.2)
    (Rect xpos.toNat ypos.toNat width.toNat height.toNat) mem mem'

/-! ### The loops -/

/-- Rows that are painted, from row `ypos` on. -/
def drawRows (vgainfo : VideoInfo) (xpos ypos width : ℕ) (color : BitVec 32) (rows : ℕ)
    (mem : Memory) : Memory :=
  forUpTo (fun y mem => forUpTo (fun x mem => forUpTo (fun k mem =>
    store8 mem (byteAddr vgainfo (xpos + x, ypos + y, k)) (colorByte color k)) 3 mem) width mem)
    rows mem

section Loops

variable {vgainfo : VideoInfo} {xpos ypos width height color : BitVec 32} {mem : Memory}

/-- The address of a byte, as the loops work it out. -/
theorem byteAddr_eq (hpitch : vgainfo.pitch.toNat = 3 * vgainfo.width.toNat)
    (xpos ypos : BitVec 32) (x y k : ℕ) :
    vgainfo.frameBuffer + (vgainfo.width * 3 * (ypos + BitVec.ofNat 32 y) + xpos * 3 +
      BitVec.ofNat 32 (3 * x) + BitVec.ofNat 32 k) =
      byteAddr vgainfo (xpos.toNat + x, ypos.toNat + y, k) := by
  have hthree : BitVec.ofNat 32 3 = 3 := rfl
  simp only [byteAddr, hpitch, BitVec.ofNat_add, BitVec.ofNat_mul, BitVec.ofNat_toNat,
    BitVec.setWidth_eq, hthree]
  ring

/-- A byte that is masked and shifted down. -/
theorem colorByte_eq {color mask : BitVec 32} {k : ℕ}
    (hmask : (mask >>> (8 * k)).setWidth 8 = BitVec.allOnes 8) :
    ((color &&& mask) >>> (8 * k)).setWidth 8 = colorByte color k := by
  rw [BitVec.ushiftRight_and_distrib, BitVec.setWidth_and, hmask, BitVec.and_allOnes]
  apply BitVec.eq_of_toNat_eq
  rw [colorByte, BitVec.toNat_setWidth, BitVec.toNat_ushiftRight, BitVec.extractLsb'_toNat]

/-- A turn over the columns paints the three bytes of a pixel. -/
theorem drawColumn_eq (hpitch : vgainfo.pitch.toNat = 3 * vgainfo.width.toNat)
    (xpos ypos color : BitVec 32) (x y : ℕ) (mem : Memory) :
    drawColumn vgainfo.frameBuffer
        (vgainfo.width * 3 * (ypos + BitVec.ofNat 32 y) + xpos * 3) color
        (BitVec.ofNat 32 (3 * x)) mem =
      forUpTo (fun k mem => store8 mem (byteAddr vgainfo (xpos.toNat + x, ypos.toNat + y, k))
        (colorByte color k)) 3 mem := by
  have hblue : (color &&& 0xFF).setWidth 8 = colorByte color 0 := colorByte_eq (k := 0) (by decide)
  have hgreen : ((color &&& 0xFF00) >>> 8).setWidth 8 = colorByte color 1 :=
    colorByte_eq (k := 1) (by decide)
  have hred : ((color &&& 0xFF0000) >>> 16).setWidth 8 = colorByte color 2 :=
    colorByte_eq (k := 2) (by decide)
  simp only [drawColumn, forUpTo, hblue, hgreen, hred, ← byteAddr_eq hpitch]
  rfl

/-- The loops end, and paint as many rows as `height*2`. -/
theorem kDrawRect_eq (hs : TrueColor vgainfo) (hin : Inside vgainfo xpos ypos width height)
    (color : BitVec 32) (mem : Memory) :
    kDrawRect vgainfo xpos ypos width height color mem =
      some (drawRows vgainfo xpos.toNat ypos.toNat width.toNat color (height * 2).toNat mem) := by
  have hpitch := hs.pitch
  have hright := hin.right
  have hpitchLt := vgainfo.pitch.isLt
  have hthree : (3 : BitVec 32).toNat = 3 := rfl
  have hwide : (width * 3).toNat = 3 * width.toNat := by
    rw [BitVec.toNat_mul, hthree]
    omega
  have hcolumns : ∀ y : ℕ, ∀ mem, forLoop (fun x => decide (x < width * 3)) (fun x => x + 3)
      (fun x mem => some (drawColumn vgainfo.frameBuffer
        (vgainfo.width * 3 * (ypos + BitVec.ofNat 32 y) + xpos * 3) color x mem)) LOOP_TURNS 0 mem =
      some (forUpTo (fun x mem => forUpTo (fun k mem => store8 mem
        (byteAddr vgainfo (xpos.toNat + x, ypos.toNat + y, k)) (colorByte color k)) 3 mem)
        width.toNat mem) := by
    intro y mem
    refine forLoop_counted (fun x => BitVec.ofNat 32 (3 * x)) (fun x _ => ?_) (fun x hx => ?_)
      (fun x _ mem => ?_) width.isLt mem
    · rw [Nat.mul_add, BitVec.ofNat_add]
      rfl
    · rw [decide_eq_true_eq, BitVec.lt_def, hwide, BitVec.toNat_ofNat]
      omega
    · rw [drawColumn_eq hpitch]
  have hrows : ∀ y ≤ (height * 2).toNat,
      BitVec.ofNat 32 y < height * 2 ↔ y < (height * 2).toNat := by
    intro y hy
    have hlt := (height * 2).isLt
    rw [BitVec.lt_def, BitVec.toNat_ofNat, Nat.mod_eq_of_lt (by omega)]
  rw [kDrawRect, drawRows]
  refine forLoop_counted (fun y => BitVec.ofNat 32 y) (fun y _ => ?_) (fun y hy => ?_)
    (fun y _ mem => hcolumns y mem) (height * 2).isLt mem
  · rw [BitVec.ofNat_add]
    rfl
  · rw [decide_eq_true_eq, hrows y hy]

/-! ### The rows -/

/-- In as many rows as the address space has room for, every byte has its own address. -/
theorem byteAddr_inj (hpitch : vgainfo.pitch.toNat = 3 * vgainfo.width.toNat) {r n : ℕ}
    (hsize : vgainfo.pitch.toNat * n ≤ 2 ^ 32) {i j : ℕ × ℕ × ℕ}
    (hi : i ∈ Rect 0 r vgainfo.width.toNat n) (hj : j ∈ Rect 0 r vgainfo.width.toNat n)
    (h : byteAddr vgainfo i = byteAddr vgainfo j) : i = j := by
  obtain ⟨x, y, k⟩ := i
  obtain ⟨x', y', k'⟩ := j
  obtain ⟨⟨-, hx⟩, ⟨hry, hyr⟩, hk⟩ := hi
  obtain ⟨⟨-, hx'⟩, ⟨hry', hyr'⟩, hk'⟩ := hj
  dsimp only at hx hry hyr hk hx' hry' hyr' hk'
  have hlow := Nat.mul_le_mul_left vgainfo.pitch.toNat hry
  have hlow' := Nat.mul_le_mul_left vgainfo.pitch.toNat hry'
  have hhigh := Nat.mul_le_mul_left vgainfo.pitch.toNat (Nat.succ_le_of_lt hyr)
  have hhigh' := Nat.mul_le_mul_left vgainfo.pitch.toNat (Nat.succ_le_of_lt hyr')
  have hrest : 3 * x + k < vgainfo.pitch.toNat := by omega
  have hrest' : 3 * x' + k' < vgainfo.pitch.toNat := by omega
  have hmod := congrArg BitVec.toNat (add_left_cancel h)
  rw [BitVec.toNat_ofNat, BitVec.toNat_ofNat] at hmod
  simp only [Nat.mul_add, Nat.succ_eq_add_one, Nat.mul_one] at hhigh hhigh' hmod
  have hlin : y * vgainfo.pitch.toNat + (3 * x + k) = y' * vgainfo.pitch.toNat + (3 * x' + k') := by
    rw [Nat.mul_comm y, Nat.mul_comm y']
    omega
  obtain ⟨hcolumn, rfl⟩ := (Raster.index_inj hrest hrest').mp hlin
  obtain rfl : x = x' := by omega
  obtain rfl : k = k' := by omega
  rfl

/-- A store fills one cell. -/
theorem fills_store8 {ι : Type} (cell : ι → Addr) (v : ι → BitVec 8) (i : ι) (mem : Memory) :
    Fills cell v {i} mem (store8 mem (cell i) (v i)) where
  stored := by
    rintro j rfl
    exact ByteMemory.store8_self ..
  kept := fun _ ha => ByteMemory.store8_of_ne (Ne.symm (ha i rfl))

/-- The rows that are painted. -/
theorem fills_rows (hpitch : vgainfo.pitch.toNat = 3 * vgainfo.width.toNat) {r n : ℕ}
    (hsize : vgainfo.pitch.toNat * n ≤ 2 ^ 32)
    (hright : xpos.toNat + width.toNat ≤ vgainfo.width.toNat) (color : BitVec 32) (mem : Memory) :
    Fills (byteAddr vgainfo) (fun i => colorByte color i.2.2)
      (Rect xpos.toNat r width.toNat n) mem
      (drawRows vgainfo xpos.toNat r width.toNat color n mem) := by
  have hagree : Agree (byteAddr vgainfo) (fun i => colorByte color i.2.2)
      (Rect 0 r vgainfo.width.toNat n) := fun i hi j hj h => by
    rw [byteAddr_inj hpitch hsize hi hj h]
  have hrect : Rect xpos.toNat r width.toNat n = {j | ∃ y < n, j ∈ {j | ∃ x < width.toNat,
      j ∈ {j | ∃ k < 3, j ∈ ({(xpos.toNat + x, r + y, k)} : Set (ℕ × ℕ × ℕ))}}} := by
    ext ⟨x, y, k⟩
    constructor
    · rintro ⟨⟨hx, hx'⟩, ⟨hy, hy'⟩, hk⟩
      dsimp only at hx hx' hy hy' hk
      refine ⟨y - r, by omega, x - xpos.toNat, by omega, k, hk, ?_⟩
      rw [Set.mem_singleton_iff, Nat.add_sub_cancel' hx, Nat.add_sub_cancel' hy]
    · rintro ⟨dy, hdy, dx, hdx, k', hk, heq⟩
      obtain ⟨rfl, rfl, rfl⟩ : x = xpos.toNat + dx ∧ y = r + dy ∧ k = k' := by
        simpa only [Set.mem_singleton_iff, Prod.mk.injEq] using heq
      exact ⟨⟨Nat.le_add_right .., Nat.add_lt_add_left hdx _⟩,
        ⟨Nat.le_add_right .., Nat.add_lt_add_left hdy _⟩, hk⟩
  have hsub : Rect xpos.toNat r width.toNat n ⊆ Rect 0 r vgainfo.width.toNat n := by
    rintro i ⟨⟨hx, hx'⟩, hy, hk⟩
    exact ⟨⟨by omega, by omega⟩, hy, hk⟩
  have hrows := hagree.mono hsub
  rw [hrect] at hrows ⊢
  refine fills_forUpTo (fun y hy mem => ?_) hrows mem
  refine fills_forUpTo (fun x hx mem => ?_) (hrows.mono fun j hj => ⟨y, hy, hj⟩) mem
  exact fills_forUpTo (fun k _ mem => fills_store8 _ _ (xpos.toNat + x, r + y, k) mem)
    (hrows.mono fun j hj => ⟨y, hy, x, hx, hj⟩) mem

theorem drawRows_add (vgainfo : VideoInfo) (xpos ypos width : ℕ) (color : BitVec 32) (n k : ℕ)
    (mem : Memory) :
    drawRows vgainfo xpos ypos width color (n + k) mem =
      drawRows vgainfo xpos (ypos + n) width color k
        (drawRows vgainfo xpos ypos width color n mem) := by
  simp only [drawRows, forUpTo_add, Nat.add_assoc]

/-- Rows without a column. -/
theorem drawRows_zero (vgainfo : VideoInfo) (xpos ypos : ℕ) (color : BitVec 32) (n : ℕ)
    (mem : Memory) : drawRows vgainfo xpos ypos 0 color n mem = mem :=
  forUpTo_inv (fun _ m => m = mem) rfl fun _ _ _ h => h

end Loops

/-! ### The rectangle -/

/-- A byte has its colour already: that of the rectangle, where the memory has wrapped around on to
it, and else that of the memory. -/
def HasColor (vgainfo : VideoInfo) (xpos ypos width height color : BitVec 32) (mem : Memory)
    (i : ℕ × ℕ × ℕ) : Prop :=
  (∀ j ∈ Rect xpos.toNat ypos.toNat width.toNat height.toNat,
      byteAddr vgainfo j = byteAddr vgainfo i → colorByte color j.2.2 = colorByte color i.2.2) ∧
    ((∀ j ∈ Rect xpos.toNat ypos.toNat width.toNat height.toNat,
        byteAddr vgainfo j ≠ byteAddr vgainfo i) →
      mem (byteAddr vgainfo i) = colorByte color i.2.2)

section Rectangle

variable {vgainfo : VideoInfo} {xpos ypos width height : BitVec 32}

/-- **Twice the rows**: `k_drawRect` paints its rectangle and nothing else exactly when the bytes of
as many rows below it have the colour already. -/
theorem drawsRect_iff (hs : TrueColor vgainfo) (hin : Inside vgainfo xpos ypos width height)
    (color : BitVec 32) (mem : Memory) :
    (∃ mem', kDrawRect vgainfo xpos ypos width height color mem = some mem' ∧
      DrawsRect vgainfo xpos ypos width height color mem mem') ↔
    ∀ i ∈ Rect xpos.toNat (ypos.toNat + height.toNat) width.toNat height.toNat,
      HasColor vgainfo xpos ypos width height color mem i := by
  have hright := hin.right
  have hpitch := hs.pitch
  have hsize : vgainfo.pitch.toNat * height.toNat ≤ 2 ^ 32 := by
    have hbottom := hin.bottom
    exact (Nat.mul_le_mul_left _ (by omega)).trans hs.size
  simp only [kDrawRect_eq hs hin, Option.some.injEq, exists_eq_left']
  rcases Nat.eq_zero_or_pos width.toNat with hzero | hpos
  · have hnone : ∀ r n, ∀ i : ℕ × ℕ × ℕ, i ∉ Rect xpos.toNat r width.toNat n := by
      rintro r n i ⟨⟨hx, hx'⟩, -⟩
      omega
    rw [hzero, drawRows_zero, ← hzero]
    exact ⟨fun _ i hi => absurd hi (hnone _ _ i), fun _ =>
      ⟨fun i hi => absurd hi (hnone _ _ i), fun _ _ => rfl⟩⟩
  · have htwice : (height * 2).toNat = height.toNat + height.toNat := by
      have hthree : 3 * height.toNat ≤ 2 ^ 32 :=
        (Nat.mul_le_mul_right _ (by omega)).trans hsize
      have htwo : (2 : BitVec 32).toNat = 2 := rfl
      rw [BitVec.toNat_mul, htwo]
      omega
    rw [htwice, drawRows_add]
    -- the rectangle, and the rows below it
    have hrect := fills_rows hpitch hsize hright color mem (r := ypos.toNat)
    have hbelow := fills_rows hpitch hsize hright color
      (drawRows vgainfo xpos.toNat ypos.toNat width.toNat color height.toNat mem)
      (r := ypos.toNat + height.toNat)
    have hsame : DrawsRect vgainfo xpos ypos width height color mem
        (drawRows vgainfo xpos.toNat (ypos.toNat + height.toNat) width.toNat color height.toNat
          (drawRows vgainfo xpos.toNat ypos.toNat width.toNat color height.toNat mem)) ↔ _ =
        drawRows vgainfo xpos.toNat ypos.toNat width.toNat color height.toNat mem :=
      ⟨fun h => Fills.unique h hrect, fun h => by rw [h]; exact hrect⟩
    rw [hsame, hbelow.eq_iff]
    exact forall₂_congr fun i _ => hrect.apply_eq_iff _ _

end Rectangle

/-! ### A small screen -/

/-- A screen of one column and two rows. -/
def smallScreen : VideoInfo where
  width := 1
  height := 2
  bpp := 24
  pitch := 3
  frameBuffer := 0xFD000000

theorem smallScreen_trueColor : TrueColor smallScreen := ⟨rfl, by decide, by decide⟩

/-- The upper pixel is inside the screen. -/
theorem smallScreen_inside : Inside smallScreen 0 0 1 1 := ⟨by decide, by decide⟩

/-- The upper pixel of a white screen becomes white. -/
theorem drawsRect_white :
    ∃ mem', kDrawRect smallScreen 0 0 1 1 0xFFFFFF (fun _ => 0xFF) = some mem' ∧
    DrawsRect smallScreen 0 0 1 1 0xFFFFFF (fun _ => 0xFF) mem' := by
  have hwhite : ∀ k < 3, colorByte 0xFFFFFF k = 0xFF := by decide
  refine (drawsRect_iff smallScreen_trueColor smallScreen_inside 0xFFFFFF _).mpr ?_
  rintro i ⟨-, -, hk⟩
  refine ⟨?_, fun _ => (hwhite _ hk).symm⟩
  rintro j ⟨-, -, hk'⟩ -
  rw [hwhite _ hk, hwhite _ hk']

/-- On a black screen the lower pixel becomes white as well. -/
theorem not_drawsRect_black :
    ¬ ∃ mem', kDrawRect smallScreen 0 0 1 1 0xFFFFFF (fun _ => 0) = some mem' ∧
    DrawsRect smallScreen 0 0 1 1 0xFFFFFF (fun _ => 0) mem' := by
  rintro ⟨mem', hrun, hdraws⟩
  rw [kDrawRect_eq smallScreen_trueColor smallScreen_inside] at hrun
  obtain rfl := Option.some.inj hrun
  have hother : ∀ i ∈ Rect 0 0 1 1, byteAddr smallScreen i ≠ byteAddr smallScreen (0, 1, 0) := by
    rintro i hi h
    have heq := byteAddr_inj (r := 0) (n := 2) smallScreen_trueColor.pitch (by decide)
      ⟨hi.1, ⟨hi.2.1.1, Nat.lt_succ_of_lt hi.2.1.2⟩, hi.2.2⟩
      ⟨⟨by decide, by decide⟩, ⟨by decide, by decide⟩, by decide⟩ h
    rw [heq] at hi
    exact absurd hi.2.1.2 (by decide)
  have hkept := hdraws.kept _ hother
  exact absurd hkept (by decide)

end B2OS.Vga
