import B2OS.Lib.Run
import Mathlib.Data.BitVec

/-!
# The Text Console

This module embeds the output functions of `Src/console.c`. The position of the cursor is
kept three times: the linear index `g_vga_index`, the column and the row in a byte each, and
the location register of the CRT controller. The state also records every store into
`g_vga_buffer`, the latest first.

The copies come apart in four places. A tab and `console_ungetchar` send the column to the
controller before it is counted on, where the other characters count first. A newline counts
one row on however many rows the line took in the buffer. The column is a byte, and a line of
256 characters takes it back to zero. `Call.Fits` leaves these out.

## Main results

* `Position`: the three copies agree, and every store was in the buffer.
* `Placed.putchar`, `Synced.putchar`: what a character does to the copies.
* `position_of_run`: in a run of calls that fit, the copies agree after every call.
-/

namespace B2OS.Console

def VGA_TOTAL_ITEMS : ℕ := 2200
def VGA_WIDTH : BitVec 32 := 80
def VGA_HEIGHT : BitVec 8 := 24

/-- The characters that `console_putchar` treats by themselves. -/
def SPACE : BitVec 8 := 0x20
def TAB : BitVec 8 := 0x09
def NEWLINE : BitVec 8 := 0x0A

/-! ### The CRT controller -/

/-- The CRT controller: the register selected by the address port, and the registers. -/
structure Crtc where
  address : BitVec 8
  registers : BitVec 8 → BitVec 8

def portByteOut (port : BitVec 16) (v : BitVec 8) (crtc : Crtc) : Crtc :=
  if port = 0x3D4 then { crtc with address := v }
  else if port = 0x3D5 then
    { crtc with registers := Function.update crtc.registers crtc.address v }
  else crtc

/-- The cursor location that was last sent. -/
def Crtc.cursorLocation (crtc : Crtc) : BitVec 16 := crtc.registers 14 ++ crtc.registers 15

def vgaSetCursorPos (x y : BitVec 8) (crtc : Crtc) : Crtc :=
  let cursorLocation : BitVec 16 := BitVec.ofNat 16 (y.toNat * 80 + x.toNat)
  let crtc := portByteOut 0x3D4 14 crtc
  let crtc := portByteOut 0x3D5 ((cursorLocation >>> 8).setWidth 8) crtc
  let crtc := portByteOut 0x3D4 15 crtc
  portByteOut 0x3D5 (cursorLocation.setWidth 8) crtc

/-- The location that `vga_set_cursor_pos` sends. -/
theorem vgaSetCursorPos_location (x y : BitVec 8) (crtc : Crtc) :
    (vgaSetCursorPos x y crtc).cursorLocation.toNat = y.toNat * 80 + x.toNat := by
  have hx := x.isLt
  have hy := y.isLt
  have hsplit : ∀ w : BitVec 16, (w >>> 8).setWidth 8 ++ w.setWidth 8 = w := by
    intro w
    apply BitVec.eq_of_toNat_eq
    rw [BitVec.toNat_append, BitVec.toNat_setWidth, BitVec.toNat_setWidth,
      BitVec.toNat_ushiftRight, Nat.shiftRight_eq_div_pow,
      ← Nat.shiftLeft_add_eq_or_of_lt (Nat.mod_lt _ (by decide)), Nat.shiftLeft_eq]
    omega
  have hregs : (vgaSetCursorPos x y crtc).cursorLocation =
      BitVec.ofNat 16 (y.toNat * 80 + x.toNat) := hsplit _
  rw [hregs, BitVec.toNat_ofNat]
  omega

/-! ### The console -/

/-- The variables of the console, the controller, and the stores into the buffer. -/
structure State where
  vgaIndex : BitVec 32
  cursorPosX : BitVec 8
  cursorPosY : BitVec 8
  foreColor : BitVec 8
  backColor : BitVec 8
  crtc : Crtc
  stores : List (BitVec 32 × BitVec 16)

def vgaItemEntry (ch foreColor backColor : BitVec 8) : BitVec 16 :=
  ((backColor <<< 4) ||| foreColor) ++ ch

/-- A store into `g_vga_buffer`. -/
def State.store (c : State) (i : BitVec 32) (item : BitVec 16) : State :=
  { c with stores := (i, item) :: c.stores }

/-- The call of `vga_set_cursor_pos`. -/
def State.setCursor (c : State) (x y : BitVec 8) : State :=
  { c with crtc := vgaSetCursorPos x y c.crtc }

def consoleClear (foreColor backColor : BitVec 8) (c : State) : State :=
  let c := forUpTo (fun i c => c.store (BitVec.ofNat 32 i) (vgaItemEntry 0 foreColor backColor))
    VGA_TOTAL_ITEMS c
  let c := { c with vgaIndex := 0, cursorPosX := 0, cursorPosY := 0 }
  c.setCursor c.cursorPosX c.cursorPosY

def consoleInit (foreColor backColor : BitVec 8) (c : State) : State :=
  consoleClear foreColor backColor
    { c with foreColor := foreColor, backColor := backColor, cursorPosX := 0, cursorPosY := 0 }

def consoleNewline (c : State) : State :=
  if VGA_HEIGHT ≤ c.cursorPosY then
    consoleClear c.foreColor c.backColor { c with cursorPosX := 0, cursorPosY := 0 }
  else
    let c := { c with
      vgaIndex := c.vgaIndex + (VGA_WIDTH - c.vgaIndex % VGA_WIDTH)
      cursorPosX := 0
      cursorPosY := c.cursorPosY + 1 }
    c.setCursor c.cursorPosX c.cursorPosY

/-- `g_vga_buffer[g_vga_index++] = vga_item_entry(ch, g_fore_color, g_back_color)`. -/
def State.putItem (c : State) (ch : BitVec 8) : State :=
  { c.store c.vgaIndex (vgaItemEntry ch c.foreColor c.backColor) with
    vgaIndex := c.vgaIndex + 1 }

/-- A blank of a space or a tab: the column is sent and then counted. -/
def putBlank (c : State) : State :=
  let c := c.putItem SPACE
  { c.setCursor c.cursorPosX c.cursorPosY with cursorPosX := c.cursorPosX + 1 }

/-- The last branch: the column is counted and then sent. -/
def putGlyph (ch : BitVec 8) (c : State) : State :=
  let c := c.putItem ch
  let c := { c with cursorPosX := c.cursorPosX + 1 }
  c.setCursor c.cursorPosX c.cursorPosY

/-- `console_putchar`. The first `if` has no `else`: a space is put as a blank and then, in
the last branch, once more. A `char` is signed, so the codes from 128 on put nothing. -/
def consolePutchar (c : State) (ch : BitVec 8) : State :=
  let c := if ch = SPACE then putBlank c else c
  if ch = TAB then forUpTo (fun _ c => putBlank c) 4 c
  else if ch = NEWLINE then consoleNewline c
  else if (0#8).slt ch then putGlyph ch c
  else c

def consoleUngetchar (c : State) : State :=
  let c :=
    if 0 < c.vgaIndex then
      let c := c.store c.vgaIndex (vgaItemEntry 0 c.foreColor c.backColor)
      let c := { c with vgaIndex := c.vgaIndex - 1 }
      if 0 < c.cursorPosX then
        { c.setCursor c.cursorPosX c.cursorPosY with cursorPosX := c.cursorPosX - 1 }
      else
        let c := { c with cursorPosX := VGA_WIDTH.setWidth 8 }
        if 0 < c.cursorPosY then
          let c := { c with cursorPosY := c.cursorPosY - 1 }
          { c.setCursor c.cursorPosX c.cursorPosY with cursorPosX := c.cursorPosX - 1 }
        else { c with cursorPosY := 0 }
    else c
  c.store c.vgaIndex (vgaItemEntry 0 c.foreColor c.backColor)

def consoleGotoxy (x y : BitVec 16) (c : State) : State :=
  let c := { c with
    vgaIndex := BitVec.ofNat 32 (80 * y.toNat + x.toNat)
    cursorPosX := x.setWidth 8
    cursorPosY := y.setWidth 8 }
  c.setCursor c.cursorPosX c.cursorPosY

/-- `console_putstr` of the characters in memory from `str` on. -/
def consolePutstr : List (BitVec 8) → State → State
  | [], c => c
  | ch :: str, c =>
    if ch = 0 then c
    else consolePutstr str (if ch = NEWLINE then consoleNewline c else consolePutchar c ch)

/-- `printf` sends its output to `console_putchar`, one character after the other. -/
def printfOutput (out : List (BitVec 8)) (c : State) : State := out.foldl consolePutchar c

/-! ### Calls -/

/-- The calls of the clients of the console. -/
inductive Call
  | putchar (ch : BitVec 8)
  | putstr (str : List (BitVec 8))
  | printf (out : List (BitVec 8))
  | ungetchar
  | clear (foreColor backColor : BitVec 8)
  | gotoxy (x y : BitVec 16) (hx : x.toNat < 80) (hy : y.toNat < 25)

def step (c : State) : Call → State
  | .putchar ch => consolePutchar c ch
  | .putstr str => consolePutstr str c
  | .printf out => printfOutput out c
  | .ungetchar => consoleUngetchar c
  | .clear foreColor backColor => consoleClear foreColor backColor c
  | .gotoxy x y _ _ => consoleGotoxy x y c

/-- The three copies of the position agree, and every store was in the buffer. -/
structure Position (c : State) : Prop where
  index : c.vgaIndex.toNat = 80 * c.cursorPosY.toNat + c.cursorPosX.toNat
  location : c.crtc.cursorLocation.toNat = c.vgaIndex.toNat
  stores : ∀ s ∈ c.stores, s.1.toNat < VGA_TOTAL_ITEMS

/-! ### Where the copies stay together -/

/-- A character that moves the cursor. -/
def Moves (ch : BitVec 8) : Prop := (0#8).slt ch = true

instance (ch : BitVec 8) : Decidable (Moves ch) := inferInstanceAs (Decidable (_ = true))

/-- The columns that a character takes in its line. -/
def columns (ch : BitVec 8) : ℕ :=
  if ch = TAB then 4 else if ch = SPACE then 2 else if Moves ch then 1 else 0

/-- A newline ends a line that did not pass the width, or clears the screen; the column of
another character stays in its byte. -/
def CharFits (c : State) (ch : BitVec 8) : Prop :=
  if ch = NEWLINE then c.cursorPosX.toNat < 80 ∨ VGA_HEIGHT ≤ c.cursorPosY
  else c.cursorPosX.toNat + columns ch < 256

/-- The last character of a text that moves the cursor is a tab. -/
def EndsInTab (text : List (BitVec 8)) : Prop :=
  (text.filter fun ch => Moves ch).getLast? = some TAB

/-- Every character fits when its turn comes, and the text does not end in a tab. -/
def TextFits (c : State) (text : List (BitVec 8)) : Prop :=
  Along consolePutchar CharFits c text ∧ ¬ EndsInTab text

/-- The characters of a string before its terminator. -/
def chars (str : List (BitVec 8)) : List (BitVec 8) := str.takeWhile (· ≠ 0)

/-- The calls that keep the copies together. -/
def Call.Fits (c : State) : Call → Prop
  | .putchar ch => TextFits c [ch]
  | .putstr str => TextFits c (chars str)
  | .printf out => TextFits c out
  | .ungetchar => c.vgaIndex = 0
  | .clear _ _ => True
  | .gotoxy _ _ _ _ => True

instance (c : State) (ch : BitVec 8) : Decidable (CharFits c ch) :=
  inferInstanceAs (Decidable (if ch = NEWLINE
    then c.cursorPosX.toNat < 80 ∨ VGA_HEIGHT ≤ c.cursorPosY
    else c.cursorPosX.toNat + columns ch < 256))

instance (text : List (BitVec 8)) : Decidable (EndsInTab text) :=
  inferInstanceAs (Decidable (_ = _))

instance (c : State) (text : List (BitVec 8)) : Decidable (TextFits c text) :=
  inferInstanceAs (Decidable (_ ∧ _))

instance (c : State) : (call : Call) → Decidable (call.Fits c)
  | .putchar ch => inferInstanceAs (Decidable (TextFits c [ch]))
  | .putstr str => inferInstanceAs (Decidable (TextFits c (chars str)))
  | .printf out => inferInstanceAs (Decidable (TextFits c out))
  | .ungetchar => inferInstanceAs (Decidable (c.vgaIndex = 0))
  | .clear _ _ => inferInstanceAs (Decidable True)
  | .gotoxy _ _ _ _ => inferInstanceAs (Decidable True)

/-- The index is the one of the column and the row, which is on the screen, and every store
was in the buffer. -/
structure Placed (c : State) : Prop where
  index : c.vgaIndex.toNat = 80 * c.cursorPosY.toNat + c.cursorPosX.toNat
  row : c.cursorPosY.toNat ≤ 24
  stores : ∀ s ∈ c.stores, s.1.toNat < VGA_TOTAL_ITEMS

/-- The controller has the index. -/
def Synced (c : State) : Prop := c.crtc.cursorLocation.toNat = c.vgaIndex.toNat

theorem Placed.index_lt {c : State} (h : Placed c) : c.vgaIndex.toNat < VGA_TOTAL_ITEMS := by
  have hindex := h.index
  have hrow := h.row
  have hx := c.cursorPosX.isLt
  rw [VGA_TOTAL_ITEMS]
  omega

@[simp] theorem setCursor_location (c : State) (x y : BitVec 8) :
    (c.setCursor x y).crtc.cursorLocation.toNat = y.toNat * 80 + x.toNat :=
  vgaSetCursorPos_location x y c.crtc

/-- A store at the index is in the buffer. -/
theorem Placed.store {c : State} (h : Placed c) (item : BitVec 16) :
    Placed (c.store c.vgaIndex item) where
  index := h.index
  row := h.row
  stores := by
    intro s hs
    rcases List.mem_cons.mp hs with rfl | hs
    · exact h.index_lt
    · exact h.stores s hs

theorem toNat_succ {w : ℕ} {x : BitVec w} (h : x.toNat + 1 < 2 ^ w) :
    (x + 1#w).toNat = x.toNat + 1 := by
  have hone : 1 < 2 ^ w := by omega
  rw [BitVec.toNat_add, BitVec.toNat_ofNat, Nat.mod_eq_of_lt hone, Nat.mod_eq_of_lt h]

/-- Counting on: the index and the column together. -/
theorem Placed.advance {c c' : State} (h : Placed c) (hx : c.cursorPosX.toNat + 1 < 256)
    (hindex : c'.vgaIndex = c.vgaIndex + 1) (hx' : c'.cursorPosX = c.cursorPosX + 1)
    (hy' : c'.cursorPosY = c.cursorPosY)
    (hstores : ∃ item, c'.stores = (c.vgaIndex, item) :: c.stores) :
    Placed c' ∧ c'.cursorPosX.toNat = c.cursorPosX.toNat + 1 := by
  have hlt := h.index_lt
  have hi : (c.vgaIndex + 1).toNat = c.vgaIndex.toNat + 1 := by
    refine toNat_succ ?_
    rw [VGA_TOTAL_ITEMS] at hlt
    omega
  have hcol : c'.cursorPosX.toNat = c.cursorPosX.toNat + 1 := by
    rw [hx']
    exact toNat_succ hx
  obtain ⟨item, hstores⟩ := hstores
  refine ⟨⟨?_, hy' ▸ h.row, ?_⟩, hcol⟩
  · rw [hindex, hi, hcol, hy', h.index]
    omega
  · rw [hstores]
    exact (h.store item).stores

theorem Placed.blank {c : State} (h : Placed c) (hx : c.cursorPosX.toNat + 1 < 256) :
    Placed (putBlank c) ∧ (putBlank c).cursorPosX.toNat = c.cursorPosX.toNat + 1 :=
  h.advance hx rfl rfl rfl ⟨_, rfl⟩

theorem Placed.glyph {c : State} (h : Placed c) (ch : BitVec 8)
    (hx : c.cursorPosX.toNat + 1 < 256) :
    Placed (putGlyph ch c) ∧ (putGlyph ch c).cursorPosX.toNat = c.cursorPosX.toNat + 1 :=
  h.advance hx rfl rfl rfl ⟨_, rfl⟩

/-- The state behind a `vga_set_cursor_pos` of the column and the row. -/
theorem Placed.synced {c : State} (h : Placed (c.setCursor c.cursorPosX c.cursorPosY)) :
    Synced (c.setCursor c.cursorPosX c.cursorPosY) := by
  rw [Synced, h.index, setCursor_location, Nat.mul_comm]
  rfl

/-- The clearing loop stores into the buffer and leaves the rest. -/
theorem clearLoop {c : State} (item : BitVec 16)
    (hstores : ∀ s ∈ c.stores, s.1.toNat < VGA_TOTAL_ITEMS) :
    ∀ s ∈ (forUpTo (fun i c => c.store (BitVec.ofNat 32 i) item) VGA_TOTAL_ITEMS c).stores,
      s.1.toNat < VGA_TOTAL_ITEMS := by
  refine forUpTo_inv (fun _ (c : State) => ∀ s ∈ c.stores, s.1.toNat < VGA_TOTAL_ITEMS)
    hstores ?_
  intro i hi c hc s hs
  rcases List.mem_cons.mp hs with rfl | hs
  · rw [BitVec.toNat_ofNat]
    exact lt_of_le_of_lt (Nat.mod_le _ _) hi
  · exact hc s hs

theorem placed_home {c : State} (hstores : ∀ s ∈ c.stores, s.1.toNat < VGA_TOTAL_ITEMS) :
    Placed (State.setCursor { c with vgaIndex := 0, cursorPosX := 0, cursorPosY := 0 } 0 0) ∧
      Synced (State.setCursor { c with vgaIndex := 0, cursorPosX := 0, cursorPosY := 0 } 0 0) := by
  have hplaced : Placed
      (State.setCursor { c with vgaIndex := 0, cursorPosX := 0, cursorPosY := 0 } 0 0) :=
    ⟨rfl, Nat.zero_le _, hstores⟩
  exact ⟨hplaced, hplaced.synced⟩

theorem placed_clear {c : State} (hstores : ∀ s ∈ c.stores, s.1.toNat < VGA_TOTAL_ITEMS)
    (foreColor backColor : BitVec 8) :
    Placed (consoleClear foreColor backColor c) ∧ Synced (consoleClear foreColor backColor c) := by
  have hhome := placed_home (clearLoop (vgaItemEntry 0 foreColor backColor) hstores)
  exact hhome

/-- A newline counts one row on where the line did not pass the width. -/
theorem Placed.newline {c : State} (h : Placed c)
    (hfits : c.cursorPosX.toNat < 80 ∨ VGA_HEIGHT ≤ c.cursorPosY) :
    Placed (consoleNewline c) ∧ Synced (consoleNewline c) := by
  rw [consoleNewline]
  split_ifs with hheight
  · exact placed_clear (c := { c with cursorPosX := 0, cursorPosY := 0 }) h.stores _ _
  · have hx := hfits.resolve_right hheight
    have hrow : c.cursorPosY.toNat < 24 := Nat.not_le.mp hheight
    have hindex := h.index
    have hy : (c.cursorPosY + 1).toNat = c.cursorPosY.toNat + 1 := toNat_succ (by omega)
    have hplaced : Placed (State.setCursor { c with
        vgaIndex := c.vgaIndex + (VGA_WIDTH - c.vgaIndex % VGA_WIDTH)
        cursorPosX := 0
        cursorPosY := c.cursorPosY + 1 } 0 (c.cursorPosY + 1)) := by
      refine ⟨?_, ?_, h.stores⟩
      · change (c.vgaIndex + (VGA_WIDTH - c.vgaIndex % VGA_WIDTH)).toNat =
          80 * (c.cursorPosY + 1).toNat + 0
        have hwidth : VGA_WIDTH.toNat = 80 := rfl
        rw [hy, BitVec.toNat_add, BitVec.toNat_sub, BitVec.toNat_umod, hwidth, hindex]
        omega
      · change (c.cursorPosY + 1).toNat ≤ 24
        omega
    exact ⟨hplaced, hplaced.synced⟩

/-- Blanks, one after the other. -/
theorem Placed.blanks {c : State} (h : Placed c) {n : ℕ}
    (hx : c.cursorPosX.toNat + n < 256) : Placed (forUpTo (fun _ c => putBlank c) n c) := by
  have hblanks : Placed (forUpTo (fun _ c => putBlank c) n c) ∧
      (forUpTo (fun _ c => putBlank c) n c).cursorPosX.toNat = c.cursorPosX.toNat + n := by
    refine forUpTo_inv
      (fun i (c' : State) => Placed c' ∧ c'.cursorPosX.toNat = c.cursorPosX.toNat + i)
      ⟨h, rfl⟩ ?_
    rintro i hi c' ⟨hc', hcol⟩
    obtain ⟨hnext, hnextCol⟩ := hc'.blank (by omega)
    exact ⟨hnext, by omega⟩
  exact hblanks.1

theorem putchar_tab (c : State) :
    consolePutchar c TAB = forUpTo (fun _ c => putBlank c) 4 c := rfl

theorem putchar_newline (c : State) : consolePutchar c NEWLINE = consoleNewline c := rfl

theorem putchar_space (c : State) :
    consolePutchar c SPACE = putGlyph SPACE (putBlank c) := rfl

theorem putchar_glyph {c : State} {ch : BitVec 8} (hspace : ch ≠ SPACE) (htab : ch ≠ TAB)
    (hnewline : ch ≠ NEWLINE) (hmoves : Moves ch) : consolePutchar c ch = putGlyph ch c := by
  simp only [consolePutchar, if_neg hspace, if_neg htab, if_neg hnewline]
  exact if_pos hmoves

theorem putchar_still {c : State} {ch : BitVec 8} (hmoves : ¬ Moves ch) :
    consolePutchar c ch = c := by
  have hspace : ch ≠ SPACE := by
    rintro rfl
    exact hmoves (by decide)
  have htab : ch ≠ TAB := by
    rintro rfl
    exact hmoves (by decide)
  have hnewline : ch ≠ NEWLINE := by
    rintro rfl
    exact hmoves (by decide)
  simp only [consolePutchar, if_neg hspace, if_neg htab, if_neg hnewline]
  exact if_neg hmoves

/-- A character that fits keeps the position; one that is not a tab sends it, if it moves the
cursor. -/
theorem Placed.putchar {c : State} (h : Placed c) {ch : BitVec 8} (hfits : CharFits c ch) :
    Placed (consolePutchar c ch) ∧
      (ch ≠ TAB → Moves ch ∨ Synced c → Synced (consolePutchar c ch)) := by
  by_cases hmoves : Moves ch
  · by_cases htab : ch = TAB
    · subst htab
      exact ⟨h.blanks hfits, fun hne => absurd rfl hne⟩
    by_cases hnewline : ch = NEWLINE
    · subst hnewline
      obtain ⟨hplaced, hsynced⟩ := h.newline hfits
      exact ⟨hplaced, fun _ _ => hsynced⟩
    rw [CharFits, if_neg hnewline, columns, if_neg htab] at hfits
    by_cases hspace : ch = SPACE
    · subst hspace
      rw [if_pos rfl] at hfits
      obtain ⟨hblank, hcol⟩ := h.blank (by omega)
      obtain ⟨hglyph, -⟩ := hblank.glyph SPACE (by omega)
      exact ⟨hglyph, fun _ _ => hglyph.synced⟩
    · rw [if_neg hspace, if_pos hmoves] at hfits
      rw [putchar_glyph hspace htab hnewline hmoves]
      obtain ⟨hglyph, -⟩ := h.glyph ch hfits
      exact ⟨hglyph, fun _ _ => hglyph.synced⟩
  · rw [putchar_still hmoves]
    exact ⟨h, fun _ hsync => hsync.resolve_left hmoves⟩

/-- A text that fits keeps the position, and leaves it with the controller if the last
character that moves the cursor is not a tab. -/
theorem Placed.text {c : State} (h : Placed c) {text : List (BitVec 8)}
    (hfits : Along consolePutchar CharFits c text) :
    Placed (text.foldl consolePutchar c) ∧
      (¬ EndsInTab text → Synced c → Synced (text.foldl consolePutchar c)) := by
  induction text using List.reverseRecOn with
  | nil => exact ⟨h, fun _ hsync => hsync⟩
  | append_singleton text ch ih =>
      obtain ⟨htext, hch⟩ := along_concat.mp hfits
      obtain ⟨hplaced, hsynced⟩ := ih htext
      obtain ⟨hnext, hnextSynced⟩ := hplaced.putchar hch
      rw [List.foldl_append]
      refine ⟨hnext, fun hend hsync => ?_⟩
      rw [EndsInTab, List.filter_append] at hend
      by_cases hmoves : Moves ch
      · refine hnextSynced ?_ (Or.inl hmoves)
        rintro rfl
        exact hend (by rw [List.filter_singleton]; simp [hmoves])
      · have hstill : [ch].filter (fun ch => Moves ch) = [] := by
          rw [List.filter_singleton]
          simp [hmoves]
        rw [hstill, List.append_nil] at hend
        have hback := hsynced hend hsync
        rwa [List.foldl_cons, List.foldl_nil, putchar_still hmoves]

/-- `console_putstr` puts the characters before the terminator. -/
theorem consolePutstr_eq (str : List (BitVec 8)) (c : State) :
    consolePutstr str c = (chars str).foldl consolePutchar c := by
  induction str generalizing c with
  | nil => rfl
  | cons ch str ih =>
      have hnewline : (if ch = NEWLINE then consoleNewline c else consolePutchar c ch) =
          consolePutchar c ch := by
        split_ifs with hnewline
        · rw [hnewline, putchar_newline]
        · rfl
      rw [consolePutstr, hnewline, chars, List.takeWhile_cons]
      by_cases hzero : ch = 0
      · rw [if_pos hzero, if_neg (by simpa using hzero)]
        rfl
      · rw [if_neg hzero, if_pos (by simpa using hzero), ih, List.foldl_cons]
        rfl

/-- A call that fits keeps the copies together. -/
theorem Placed.step {c : State} (h : Placed c) (hsync : Synced c) {call : Call}
    (hfits : call.Fits c) : Placed (step c call) ∧ Synced (step c call) := by
  have htext : ∀ text, TextFits c text →
      Placed (text.foldl consolePutchar c) ∧ Synced (text.foldl consolePutchar c) := by
    rintro text ⟨hfits, hend⟩
    obtain ⟨hplaced, hsynced⟩ := h.text hfits
    exact ⟨hplaced, hsynced hend hsync⟩
  cases call with
  | putchar ch => exact htext [ch] hfits
  | putstr str =>
      change Placed (consolePutstr str c) ∧ Synced (consolePutstr str c)
      rw [consolePutstr_eq]
      exact htext _ hfits
  | printf out => exact htext out hfits
  | ungetchar =>
      have hzero : c.vgaIndex = 0 := hfits
      have hsame : Console.step c .ungetchar =
          c.store c.vgaIndex (vgaItemEntry 0 c.foreColor c.backColor) := by
        rw [Console.step, consoleUngetchar, if_neg (by rw [hzero]; decide)]
      rw [hsame]
      exact ⟨h.store _, hsync⟩
  | clear foreColor backColor => exact placed_clear h.stores foreColor backColor
  | gotoxy x y hx hy =>
      have hcol : (x.setWidth 8).toNat = x.toNat := by
        rw [BitVec.toNat_setWidth]
        omega
      have hrow : (y.setWidth 8).toNat = y.toNat := by
        rw [BitVec.toNat_setWidth]
        omega
      have hplaced : Placed (consoleGotoxy x y c) := by
        refine ⟨?_, ?_, h.stores⟩
        · change (BitVec.ofNat 32 (80 * y.toNat + x.toNat)).toNat =
            80 * (y.setWidth 8).toNat + (x.setWidth 8).toNat
          rw [BitVec.toNat_ofNat, hcol, hrow]
          omega
        · change (y.setWidth 8).toNat ≤ 24
          omega
      exact ⟨hplaced, hplaced.synced⟩

/-- In a run of calls that fit, the copies of the position agree after every call, and every
store was in the buffer. -/
theorem position_of_run (foreColor backColor : BitVec 8) {c : State} (hc : c.stores = [])
    {calls : List Call}
    (hfits : Along step (fun c call => call.Fits c) (consoleInit foreColor backColor c) calls) :
    ∀ pre, pre <+: calls → Position (pre.foldl step (consoleInit foreColor backColor c)) := by
  have hstores : ∀ s ∈ c.stores, s.1.toNat < VGA_TOTAL_ITEMS := by
    rw [hc]
    exact fun s hs => absurd hs List.not_mem_nil
  have hinit : Placed (consoleInit foreColor backColor c) ∧
      Synced (consoleInit foreColor backColor c) :=
    placed_clear (c := { c with
      foreColor := foreColor, backColor := backColor, cursorPosX := 0, cursorPosY := 0 })
      hstores foreColor backColor
  have hrun := hfits.inv_prefixes (I := fun c => Placed c ∧ Synced c)
    (fun c call h hcall => h.1.step h.2 hcall) hinit
  intro pre hpre
  obtain ⟨hplaced, hsynced⟩ := hrun pre hpre
  exact ⟨hplaced.index, hsynced, hplaced.stores⟩

/-- The console before `console_init`. -/
def blank : State where
  vgaIndex := 0
  cursorPosX := 0
  cursorPosY := 0
  foreColor := 15
  backColor := 0
  crtc := ⟨0, fun _ => 0⟩
  stores := []

/-- A text with an inner tab, two lines and a jump fits. -/
theorem position_text_goto :
    Position ([Call.printf [0x41, TAB, 0x42, NEWLINE, SPACE], .gotoxy 79 24 (by decide) (by decide),
      .putchar 0x43].foldl step (consoleInit 15 1 blank)) :=
  position_of_run 15 1 rfl (by decide) _ List.prefix_rfl

/-- A tab leaves the controller one column behind. -/
theorem tab_leaves_location :
    ¬ ∀ calls : List Call, Position (calls.foldl step (consoleInit 15 1 blank)) := by
  intro h
  have htab := (h [.putchar TAB]).location
  revert htab
  decide

end B2OS.Console
