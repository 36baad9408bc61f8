import B2OS.Apple2.GuestCall
import B2OS.Apple2.VideoRead
import B2OS.Lib.Fill

/-!
# The Text Page in the Monitor

The lines of the text screen are not one behind the other in memory. `ad_Render` takes their
addresses from a table, `offsetGR`, and the Monitor computes them: `BASCALC` from the bits of the
line, `VTABZ` with the left edge of the window added. `CLEOLZ` then stores blanks through the
pointer that they leave in page zero.

## Main results

* `line_address`: what `BASCALC` computes is the address in the table of `ad_Render`.
* `bascalc_spec`, `vtabz_spec`, `cleolz_spec`: the rules of the routines.
-/

namespace B2OS

open Fill

namespace Mos6502

open State

/-- `BASCALC`, `VTAB`, `CLEOP1`, `HOME` and `CLEOLZ`, from the Monitor in `rombios.h`. -/
def homeCode : Listing :=
  [(0xFBC1, [0x48]),              -- BASCALC  PHA
   (0xFBC2, [0x4A]),              --          LSR
   (0xFBC3, [0x29, 0x03]),        --          AND #3
   (0xFBC5, [0x09, 0x04]),        --          ORA #4
   (0xFBC7, [0x85, 0x29]),        --          STA $29
   (0xFBC9, [0x68]),              --          PLA
   (0xFBCA, [0x29, 0x18]),        --          AND #$18
   (0xFBCC, [0x90, 0x02]),        --          BCC $FBD0
   (0xFBCE, [0x69, 0x7F]),        --          ADC #$7F
   (0xFBD0, [0x85, 0x28]),        --          STA $28
   (0xFBD2, [0x0A]),              --          ASL
   (0xFBD3, [0x0A]),              --          ASL
   (0xFBD4, [0x05, 0x28]),        --          ORA $28
   (0xFBD6, [0x85, 0x28]),        --          STA $28
   (0xFBD8, [0x60]),              --          RTS
   (0xFC22, [0xA5, 0x25]),        -- VTAB     LDA $25
   (0xFC24, [0x20, 0xC1, 0xFB]),  -- VTABZ    JSR BASCALC
   (0xFC27, [0x65, 0x20]),        --          ADC $20
   (0xFC29, [0x85, 0x28]),        --          STA $28
   (0xFC2B, [0x60]),              --          RTS
   (0xFC46, [0x48]),              -- CLEOP1   PHA
   (0xFC47, [0x20, 0x24, 0xFC]),  --          JSR VTABZ
   (0xFC4A, [0x20, 0x9E, 0xFC]),  --          JSR CLEOLZ
   (0xFC4D, [0xA0, 0x00]),        --          LDY #0
   (0xFC4F, [0x68]),              --          PLA
   (0xFC50, [0x69, 0x00]),        --          ADC #0
   (0xFC52, [0xC5, 0x23]),        --          CMP $23
   (0xFC54, [0x90, 0xF0]),        --          BCC CLEOP1
   (0xFC56, [0xB0, 0xCA]),        --          BCS VTAB
   (0xFC58, [0xA5, 0x22]),        -- HOME     LDA $22
   (0xFC5A, [0x85, 0x25]),        --          STA $25
   (0xFC5C, [0xA0, 0x00]),        --          LDY #0
   (0xFC5E, [0x84, 0x24]),        --          STY $24
   (0xFC60, [0xF0, 0xE4]),        --          BEQ CLEOP1
   (0xFC9E, [0xA9, 0xA0]),        -- CLEOLZ   LDA #$A0
   (0xFCA0, [0x91, 0x28]),        --          STA ($28),Y
   (0xFCA2, [0xC8]),              --          INY
   (0xFCA3, [0xC4, 0x21]),        --          CPY $21
   (0xFCA5, [0x90, 0xF9]),        --          BCC $FCA0
   (0xFCA7, [0x60])]              --          RTS

section Home

variable {lowFirst : Bool} {rom ρ ρ' : WORD → BYTE} {r : Regs}

/-! ### The address of a line -/

/-- The cell of the first text page at `line` and `col`. -/
def textAddress (line col : ℕ) : WORD := 0x0400 + offsetGR line + BitVec.ofNat 16 col

/-- The high byte of the address of a line, as `BASCALC` computes it. -/
def lineHigh (line : BYTE) : BYTE := line >>> 1 &&& 0x03 ||| 0x04

/-- Bits 3 and 4 of a line, with its bit 0 in bit 7. -/
def lineHalf (line : BYTE) : BYTE :=
  if line.getLsbD 0 then (line &&& 0x18) + 0x80 else line &&& 0x18

/-- The low byte of the address of a line. -/
def lineLow (line : BYTE) : BYTE := lineHalf line <<< 2 ||| lineHalf line

theorem toNat_textAddress {line col : ℕ} (hline : line < 24) (hcol : col < 40) :
    (textAddress line col).toNat = 0x400 + (128 * (line % 8) + 40 * (line / 8)) + col := by
  have hall : ∀ line < 24, (offsetGR line).toNat = 128 * (line % 8) + 40 * (line / 8) := by decide
  rw [textAddress, BitVec.toNat_add, BitVec.toNat_add, BitVec.toNat_ofNat, hall line hline]
  change ((0x400 + (128 * (line % 8) + 40 * (line / 8))) % 2 ^ 16 + col % 2 ^ 16) % 2 ^ 16 = _
  omega

/-- Every cell of the screen has an address of its own. -/
theorem textAddress_inj {line line' col col' : ℕ} (hline : line < 24) (hline' : line' < 24)
    (hcol : col < 40) (hcol' : col' < 40) (h : textAddress line col = textAddress line' col') :
    line = line' ∧ col = col' := by
  have hnat := congrArg BitVec.toNat h
  rw [toNat_textAddress hline hcol, toNat_textAddress hline' hcol'] at hnat
  -- the lines of a third are 128 bytes apart, and the thirds 40
  have hrow : ∀ line col, line < 24 → col < 40 →
      (0x400 + (128 * (line % 8) + 40 * (line / 8)) + col) / 128 = 8 + line % 8 := by omega
  have hrows := congrArg (· / 128) hnat
  rw [hrow line col hline hcol, hrow line' col' hline' hcol'] at hrows
  omega

/-- The text page is above the stack, in RAM. -/
theorem textAddress_mem {line col : ℕ} (hline : line < 24) (hcol : col < 40) :
    textAddress line col ∈ highArea ∩ ramArea := by
  have hnat := toNat_textAddress hline hcol
  constructor
  · change 0x200 ≤ (textAddress line col).toNat
    omega
  · change (textAddress line col).toNat < RAMSIZE
    rw [RAMSIZE]
    omega

theorem textAddress_add (line col j : ℕ) :
    textAddress line col + BitVec.ofNat 16 j = textAddress line (col + j) := by
  rw [textAddress, textAddress, BitVec.ofNat_add, BitVec.add_assoc, BitVec.add_assoc]

/-- What `BASCALC` computes is where `ad_Render` looks. -/
theorem line_address {line : ℕ} (h : line < 24) :
    lineHigh (BitVec.ofNat 8 line) ++ lineLow (BitVec.ofNat 8 line) = textAddress line 0 := by
  have hall : ∀ line < 24, lineHigh (BitVec.ofNat 8 line) ++ lineLow (BitVec.ofNat 8 line) =
      textAddress line 0 := by decide
  exact hall line h

/-- The sum of the low byte and a column has no carry. -/
theorem column_address {line col : BYTE} (hline : line.toNat < 24) (hcol : col.toNat < 40) :
    (lineLow line).toNat + col.toNat < 256 ∧
      lineHigh line ++ (lineLow line + col) = textAddress line.toNat col.toNat := by
  have hall : ∀ line < 24, (lineLow (BitVec.ofNat 8 line)).toNat ≤ 0xD0 := by decide
  have hle := hall line.toNat hline
  have hbase := line_address hline
  rw [BitVec.ofNat_toNat, BitVec.setWidth_eq] at hle hbase
  have hsum : (lineLow line).toNat + col.toNat < 256 := by omega
  refine ⟨hsum, BitVec.eq_of_toNat_eq ?_⟩
  have hlow : textAddress line.toNat col.toNat =
      textAddress line.toNat 0 + BitVec.ofNat 16 col.toNat := by
    rw [textAddress, textAddress, BitVec.add_zero]
  have hlt := (lineHigh line).isLt
  rw [hlow, ← hbase, BitVec.toNat_add, BitVec.toNat_append, BitVec.toNat_append,
    ← Nat.shiftLeft_add_eq_or_of_lt (BitVec.isLt _),
    ← Nat.shiftLeft_add_eq_or_of_lt (BitVec.isLt _), Nat.shiftLeft_eq, BitVec.toNat_add,
    BitVec.toNat_ofNat]
  omega

/-- From its entry to its `PLA`. -/
theorem bascalc_high (lowFirst : Bool) (h : homeCode.In rom) (hpc : r.pc = 0xFBC1) :
    Triple (GuestStep lowFirst rom) (At r (· = ρ)) (16, 1)
      (At { r with pc := 0xFBCA, c := r.a.getLsbD 0 } (· =
        Function.update (Function.update ρ (stack r.sp) r.a) (zp 0x29) (lineHigh r.a))) := by
  rintro ⟨s, ρ⟩ ⟨rfl, hd, rfl⟩
  have hpha : Fetch rom 0xFBC1 [0x48] 0xFBC2 := h.fetch (by decide) (by decide)
  have hlsr : Fetch rom 0xFBC2 [0x4A] 0xFBC3 := h.fetch (by decide) (by decide)
  have hand : Fetch rom 0xFBC3 [0x29, 0x03] 0xFBC5 := h.fetch (by decide) (by decide)
  have hora : Fetch rom 0xFBC5 [0x09, 0x04] 0xFBC7 := h.fetch (by decide) (by decide)
  have hsta : Fetch rom 0xFBC7 [0x85, 0x29] 0xFBC9 := h.fetch (by decide) (by decide)
  have hpla : Fetch rom 0xFBC9 [0x68] 0xFBCA := h.fetch (by decide) (by decide)
  refine ⟨_, .head (pha ⟨hpc, hd⟩ hpha) (.head (lsr ⟨rfl, hd⟩ hlsr) (.head (and_im ⟨rfl, hd⟩ hand)
    (.head (ora_im ⟨rfl, hd⟩ hora) (.head (sta_zp ⟨rfl, hd⟩ hsta)
    (.single (pla ⟨rfl, hd⟩ hpla)))))), ?_⟩
  have hne : stack s.sp ≠ zp 0x29 := fun heq => zp_ne_stack _ _ heq.symm
  have hpulled : Function.update (Function.update ρ (stack s.sp) s.a) (zp 0x29) (lineHigh s.a)
      (stack (s.sp - 1#8 + 1#8)) = s.a := by
    rw [BitVec.sub_add_cancel, Function.update_of_ne hne, Function.update_self]
  exact ⟨Regs.ext rfl (BitVec.sub_add_cancel _ _) hpulled rfl rfl rfl, hd, rfl⟩

/-- From its `PLA` to the store of the low byte. -/
theorem bascalc_half (lowFirst : Bool) (h : homeCode.In rom) (hpc : r.pc = 0xFBCA)
    (hc : r.c = r.a.getLsbD 0) :
    Triple (GuestStep lowFirst rom) (At r (· = ρ)) (5 + r.a.toNat % 2, 0)
      (At { r with pc := 0xFBD0, a := lineHalf r.a, c := false } (· = ρ)) := by
  rintro ⟨s, ρ⟩ ⟨rfl, hd, rfl⟩
  have hand : Fetch rom 0xFBCA [0x29, 0x18] 0xFBCC := h.fetch (by decide) (by decide)
  have hbcc : Fetch rom 0xFBCC [0x90, 0x02] 0xFBCE := h.fetch (by decide) (by decide)
  have hover : (0xFBCE : WORD) + (0x02 : BYTE).signExtend 16 = 0xFBD0 := by decide
  have hadc : Fetch rom 0xFBCE [0x69, 0x7F] 0xFBD0 := h.fetch (by decide) (by decide)
  have hparity : s.a.getLsbD 0 = decide (s.a.toNat % 2 = 1) := by
    rw [BitVec.getLsbD, Nat.testBit_zero]
  cases hodd : s.a.getLsbD 0 with
  | false =>
      have hhalf : lineHalf s.a = s.a &&& 0x18 := by rw [lineHalf, hodd]; rfl
      have heven : s.a.toNat % 2 = 0 := by
        rw [hodd, eq_comm, decide_eq_false_iff_not] at hparity
        omega
      refine ⟨_, .priced (.head (and_im ⟨hpc, hd⟩ hand) (.single
        (bcc_to ⟨rfl, hd⟩ hbcc (hc.trans hodd) hover (by decide)))) ?_,
        ?_⟩
      · exact Prod.ext (congrArg (5 + ·) heven.symm) rfl
      · exact ⟨Regs.ext rfl rfl hhalf.symm rfl rfl (hc.trans hodd), hd, rfl⟩
  | true =>
      have hle : (s.a &&& 0x18).toNat ≤ 0x18 := by
        rw [BitVec.toNat_and]
        exact Nat.and_le_right
      have hhalf : lineHalf s.a = BitVec.ofNat 8 ((s.a &&& 0x18).toNat + 0x7F + 1) := by
        rw [lineHalf, hodd, if_pos rfl]
        bv_omega
      have hone : s.a.toNat % 2 = 1 := by
        rwa [hodd, eq_comm, decide_eq_true_iff] at hparity
      refine ⟨_, .priced (.head (and_im ⟨hpc, hd⟩ hand) (.head
        (bcc_past ⟨rfl, hd⟩ hbcc (hc.trans hodd)) (.single (adc_im ⟨rfl, hd⟩ hadc)))) ?_, ?_⟩
      · exact Prod.ext (congrArg (5 + ·) hone.symm) rfl
      · have hcarry : s.c = true := hc.trans hodd
        refine ⟨Regs.ext rfl rfl ?_ rfl rfl ?_, hd, rfl⟩
        · change BitVec.ofNat 8 ((s.a &&& 0x18).toNat + 0x7F + s.c.toNat) = lineHalf s.a
          rw [hhalf, hcarry]
          rfl
        · change decide (255 < (s.a &&& 0x18).toNat + 0x7F + s.c.toNat) = false
          rw [hcarry, decide_eq_false_iff_not, Bool.toNat_true]
          omega

/-- From the store of the low byte to the return. -/
theorem bascalc_low (lowFirst : Bool) (h : homeCode.In rom) (hpc : r.pc = 0xFBD0) :
    Triple (GuestStep lowFirst rom) (At r (· = ρ)) (19, 2)
      (At { r with
        pc := returnAddress ρ r.sp
        sp := r.sp + 1#8 + 1#8
        a := r.a <<< 2 ||| r.a
        c := r.a.getLsbD 6 } fun ρ' => ρ' (zp 0x28) = r.a <<< 2 ||| r.a ∧
          Set.EqOn ρ' ρ {zp 0x28}ᶜ) := by
  rintro ⟨s, ρ⟩ ⟨rfl, hd, rfl⟩
  have hsta : Fetch rom 0xFBD0 [0x85, 0x28] 0xFBD2 := h.fetch (by decide) (by decide)
  have hasl : Fetch rom 0xFBD2 [0x0A] 0xFBD3 := h.fetch (by decide) (by decide)
  have hshl : Fetch rom 0xFBD3 [0x0A] 0xFBD4 := h.fetch (by decide) (by decide)
  have hora : Fetch rom 0xFBD4 [0x05, 0x28] 0xFBD6 := h.fetch (by decide) (by decide)
  have hput : Fetch rom 0xFBD6 [0x85, 0x28] 0xFBD8 := h.fetch (by decide) (by decide)
  have hrts : Fetch rom 0xFBD8 [0x60] 0xFBD9 := h.fetch (by decide) (by decide)
  refine ⟨_, .head (sta_zp ⟨hpc, hd⟩ hsta) (.head (asl ⟨rfl, hd⟩ hasl) (.head (asl ⟨rfl, hd⟩ hshl)
    (.head (ora_zp ⟨rfl, hd⟩ hora) (.head (sta_zp ⟨rfl, hd⟩ hput)
    (.single (rts ⟨rfl, hd⟩ hrts)))))), ?_⟩
  let v := s.a <<< 1 <<< 1 ||| Function.update ρ (zp 0x28) s.a (zp 0x28)
  have hlow : v = s.a <<< 2 ||| s.a :=
    congrArg₂ (· ||| ·) (BitVec.shiftLeft_add s.a 1 1).symm (Function.update_self _ _ _)
  have hcarry : (s.a <<< 1).msb = s.a.getLsbD 6 := by
    rw [BitVec.msb_shiftLeft]
    rfl
  have hkept : Set.EqOn (Function.update (Function.update ρ (zp 0x28) s.a) (zp 0x28) v) ρ
      {zp 0x28}ᶜ :=
    eqOn_update (eqOn_update (Set.eqOn_refl _ _) (Set.mem_singleton _) _) (Set.mem_singleton _) _
  have hreturn : returnAddress (Function.update (Function.update ρ (zp 0x28) s.a) (zp 0x28) v)
      s.sp = returnAddress ρ s.sp := by
    rw [returnAddress_update_zp, returnAddress_update_zp]
  have hstored : Function.update (Function.update ρ (zp 0x28) s.a) (zp 0x28) v (zp 0x28) =
      s.a <<< 2 ||| s.a := (Function.update_self _ _ _).trans hlow
  exact ⟨Regs.ext hreturn rfl hlow rfl rfl hcarry, hd, hstored, hkept⟩

/-- What the routines below use: the pointer to a line, and `n` bytes of the stack. -/
def workArea (sp : BYTE) (n : ℕ) : Set WORD := stackArea sp n ∪ {zp 0x28, zp 0x29}

theorem stack_notMem_workArea (sp : BYTE) {k n : ℕ} (hk : 0 < k) (hn : k + n ≤ 256) :
    stack (sp + BitVec.ofNat 8 k) ∉ workArea sp n := by
  rintro (hstack | hlow | hhigh)
  · exact stack_notMem_stackArea sp hk hn hstack
  · exact zp_ne_stack _ _ hlow.symm
  · exact zp_ne_stack _ _ (Set.mem_singleton_iff.mp hhigh).symm

theorem zp_notMem_workArea {b sp : BYTE} {n : ℕ} (hlow : b ≠ 0x28) (hhigh : b ≠ 0x29) :
    zp b ∉ workArea sp n := by
  rintro (hstack | hzp | hzp)
  · exact zp_notMem_stackArea _ _ _ hstack
  · exact hlow (zp_inj.mp hzp)
  · exact hhigh (zp_inj.mp hzp)

theorem textAddress_notMem_workArea {line col : ℕ} (hline : line < 24) (hcol : col < 40) (sp : BYTE)
    (n : ℕ) : textAddress line col ∉ workArea sp n := by
  have hhigh := (textAddress_mem hline hcol).1
  rintro (⟨i, -, hstack⟩ | hzp | hzp)
  · exact stack_notMem_highArea _ (hstack ▸ hhigh)
  · exact zp_notMem_highArea _ (hzp ▸ hhigh)
  · exact zp_notMem_highArea _ (Set.mem_singleton_iff.mp hzp ▸ hhigh)

/-- What a routine uses, which is called at `sp`. -/
theorem workArea_call {sp : BYTE} {last : WORD} {n : ℕ}
    (h : Set.EqOn ρ' (pushReturn ρ sp last) (workArea (sp - 1#8 - 1#8) n)ᶜ) :
    Set.EqOn ρ' ρ (workArea sp (2 + n))ᶜ := by
  have htwo : sp - 1#8 - 1#8 = sp - BitVec.ofNat 8 2 := by
    rw [BitVec.sub_sub]
    rfl
  have hcallee : workArea (sp - 1#8 - 1#8) n ⊆ workArea sp (2 + n) := by
    rw [htwo]
    exact Set.union_subset_union_left _ (stackArea_sub sp 2 n)
  have hpushed : stackArea sp 2 ⊆ workArea sp (2 + n) :=
    (stackArea_mono sp (Nat.le_add_right _ _)).trans Set.subset_union_left
  exact (h.mono (Set.compl_subset_compl.mpr hcallee)).trans
    ((pushReturn_eqOn ρ sp last).mono (Set.compl_subset_compl.mpr hpushed))

/-- The least of what is outside of the work area is the return address. -/
theorem returnAddress_kept {n : ℕ} {sp : BYTE} (hn : n ≤ 254)
    (h : Set.EqOn ρ' ρ (workArea sp n)ᶜ) : returnAddress ρ' sp = returnAddress ρ sp :=
  returnAddress_congr h (stack_notMem_workArea sp (k := 1) (by decide) (by omega))
    (stack_notMem_workArea sp (k := 2) (by decide) (by omega))

/-- `BASCALC`: the address of a line. -/
theorem bascalc_spec (h : homeCode.In rom) (hpc : r.pc = 0xFBC1) (hline : r.a.toNat < 24) :
    Returns lowFirst rom r ρ (40 + r.a.toNat % 2, 3) { r with a := lineLow r.a, c := false }
      fun ρ' => ρ' (zp 0x28) = lineLow r.a ∧ ρ' (zp 0x29) = lineHigh r.a ∧
        Set.EqOn ρ' ρ (workArea r.sp 1)ᶜ := by
  let ρ₁ := Function.update (Function.update ρ (stack r.sp) r.a) (zp 0x29) (lineHigh r.a)
  have hpushed : stack r.sp ∈ workArea r.sp 1 := by
    refine .inl ⟨0, by decide, ?_⟩
    rw [BitVec.sub_zero]
  have hkept : Set.EqOn ρ₁ ρ (workArea r.sp 1)ᶜ :=
    eqOn_update (eqOn_update (Set.eqOn_refl _ _) hpushed _) (.inr (.inr rfl)) _
  have hreturn : returnAddress ρ₁ r.sp = returnAddress ρ r.sp :=
    returnAddress_kept (by decide) hkept
  have hstored : ρ₁ (zp 0x29) = lineHigh r.a := Function.update_self _ _ _
  have hcarry : (lineHalf r.a).getLsbD 6 = false := by
    have hall : ∀ line < 24, (lineHalf (BitVec.ofNat 8 line)).getLsbD 6 = false := by decide
    have hhalf := hall r.a.toNat hline
    rwa [BitVec.ofNat_toNat, BitVec.setWidth_eq] at hhalf
  have hhigh := bascalc_high lowFirst (ρ := ρ) h hpc
  have hhalf := bascalc_half lowFirst (ρ := ρ₁) h
    (r := { r with pc := 0xFBCA, c := r.a.getLsbD 0 }) rfl rfl
  have hlow := bascalc_low lowFirst (ρ := ρ₁) h
    (r := { r with pc := 0xFBD0, a := lineHalf r.a, c := false }) rfl
  have hrun := hhigh.seq (hhalf.seq hlow)
  refine (hrun.conseq (fun _ => id) ?_).priced (Prod.ext ?_ rfl)
  · rintro x ⟨hregs, hd, hput, heq⟩
    have hne : zp 0x29 ∉ ({zp 0x28} : Set WORD) := by
      rw [Set.mem_singleton_iff, zp_inj]
      decide
    have hsub : {zp 0x28} ⊆ workArea r.sp 1 := Set.singleton_subset_iff.mpr (.inr (.inl rfl))
    exact ⟨hregs.trans (Regs.ext hreturn rfl rfl rfl rfl hcarry), hd, hput,
      (heq hne).trans hstored, (heq.mono (Set.compl_subset_compl.mpr hsub)).trans hkept⟩
  · simp only [Prod.fst_add]
    omega

/-- From the return of `BASCALC` to the return of `VTABZ`. -/
theorem vtabz_tail (h : homeCode.In rom) (hpc : r.pc = 0xFC27) (hc : r.c = false)
    (hsum : r.a.toNat + (ρ (zp 0x20)).toNat < 256) :
    Triple (GuestStep lowFirst rom) (At r (· = ρ)) (12, 2)
      (At { r with
        pc := returnAddress ρ r.sp
        sp := r.sp + 1#8 + 1#8
        a := r.a + ρ (zp 0x20) } (· = Function.update ρ (zp 0x28) (r.a + ρ (zp 0x20)))) := by
  rintro ⟨s, ρ⟩ ⟨rfl, hd, rfl⟩
  have hadc : Fetch rom 0xFC27 [0x65, 0x20] 0xFC29 := h.fetch (by decide) (by decide)
  have hsta : Fetch rom 0xFC29 [0x85, 0x28] 0xFC2B := h.fetch (by decide) (by decide)
  have hrts : Fetch rom 0xFC2B [0x60] 0xFC2C := h.fetch (by decide) (by decide)
  have hsc : s.c = false := hc
  have hadded : BitVec.ofNat 8 (s.a.toNat + (ρ (zp 0x20)).toNat + s.c.toNat) =
      s.a + ρ (zp 0x20) := by
    rw [hsc, Bool.toNat_false, Nat.add_zero, BitVec.ofNat_add, BitVec.ofNat_toNat,
      BitVec.ofNat_toNat, BitVec.setWidth_eq, BitVec.setWidth_eq]
  have hcarry : decide (255 < s.a.toNat + (ρ (zp 0x20)).toNat + s.c.toNat) = s.c := by
    rw [hsc, Bool.toNat_false, decide_eq_false_iff_not]
    exact Nat.not_lt.mpr (Nat.le_of_lt_succ hsum)
  refine ⟨_, .head (adc_zp ⟨hpc, hd⟩ hadc) (.head (sta_zp ⟨rfl, hd⟩ hsta)
    (.single (rts ⟨rfl, hd⟩ hrts))), ?_⟩
  exact ⟨Regs.ext (returnAddress_update_zp _ _ _ _) rfl hadded rfl rfl hcarry, hd,
    congrArg (Function.update ρ (zp 0x28)) hadded⟩

/-- `VTABZ`: the address of a line of the window. -/
theorem vtabz_spec (lowFirst : Bool) (h : homeCode.In rom) (hpc : r.pc = 0xFC24)
    (hline : r.a.toNat < 24) (hleft : (ρ (zp 0x20)).toNat < 40) :
    Returns lowFirst rom r ρ (58 + r.a.toNat % 2, 6)
      { r with a := lineLow r.a + ρ (zp 0x20), c := false }
      fun ρ' => pointer ρ' 0x28 = textAddress r.a.toNat (ρ (zp 0x20)).toNat ∧
        Set.EqOn ρ' ρ (workArea r.sp 3)ᶜ := by
  have hjsr : Fetch rom 0xFC24 [0x20, 0xC1, 0xFB] 0xFC27 := h.fetch (by decide) (by decide)
  let Φ : (WORD → BYTE) → Prop := fun ρ₁ => ρ₁ (zp 0x28) = lineLow r.a ∧
    ρ₁ (zp 0x29) = lineHigh r.a ∧
    Set.EqOn ρ₁ (pushReturn ρ r.sp (0xFC27 - 1#16)) (workArea (r.sp - 1#8 - 1#8) 1)ᶜ
  have hcall : Triple (GuestStep lowFirst rom) (At r (· = ρ)) ((6, 1) + (40 + r.a.toNat % 2, 3))
      (At { r with pc := 0xFC27, a := lineLow r.a, c := false } Φ) :=
    Returns.call hjsr (by decide) hpc
      (bascalc_spec (r := { r with pc := 0xFBC1, sp := r.sp - 1#8 - 1#8 }) h rfl hline)
  have htail : Triple (GuestStep lowFirst rom)
      (At { r with pc := 0xFC27, a := lineLow r.a, c := false } Φ) (12, 2)
      (At { r with
        pc := returnAddress ρ r.sp
        sp := r.sp + 1#8 + 1#8
        a := lineLow r.a + ρ (zp 0x20)
        c := false } fun ρ' => pointer ρ' 0x28 = textAddress r.a.toNat (ρ (zp 0x20)).toNat ∧
          Set.EqOn ρ' ρ (workArea r.sp 3)ᶜ) := by
    refine At.triple fun ρ₁ ⟨hlow, hhigh, hpushed⟩ => ?_
    obtain ⟨hsum, haddress⟩ := column_address hline hleft
    have hkept : Set.EqOn ρ₁ ρ (workArea r.sp 3)ᶜ := workArea_call hpushed
    have hwindow : ρ₁ (zp 0x20) = ρ (zp 0x20) :=
      hkept (zp_notMem_workArea (by decide) (by decide))
    have hreturn : returnAddress ρ₁ r.sp = returnAddress ρ r.sp :=
      returnAddress_kept (by decide) hkept
    rw [← hwindow, ← hreturn]
    rw [← hwindow] at hsum haddress
    refine (vtabz_tail (r := { r with pc := 0xFC27, a := lineLow r.a, c := false })
      h rfl rfl hsum).conseq (fun _ => id) ?_
    rintro x ⟨hregs, hd, hram⟩
    refine ⟨hregs, hd, ?_, ?_⟩
    · have hne : zp (0x28 + 1#8) ≠ zp 0x28 := by
        rw [Ne, zp_inj]
        decide
      have hbyte : ρ₁ (zp (0x28 + 1#8)) = lineHigh r.a := hhigh
      rw [hram, pointer, Function.update_of_ne hne, Function.update_self, hbyte]
      exact haddress
    · rw [hram]
      exact eqOn_update hkept (.inr (.inl rfl)) _
  refine (hcall.seq htail).priced (Prod.ext ?_ rfl)
  simp only [Prod.fst_add]
  omega

/-! ### Clearing a line -/

/-- The first `i` cells from `p` on are blanks, and nothing else has changed. -/
def Blanked (p : WORD) (i : ℕ) (ρ ρ' : WORD → BYTE) : Prop :=
  Fills (fun j => p + BitVec.ofNat 16 j) (fun _ => 0xA0) (Set.Iio i) ρ ρ'

theorem Blanked.zero (p : WORD) (ρ : WORD → BYTE) : Blanked p 0 ρ ρ :=
  ⟨fun _ hj => absurd hj (Nat.not_lt_zero _), fun _ _ => rfl⟩

theorem Blanked.succ {p : WORD} {i : ℕ} (h : Blanked p i ρ ρ') :
    Blanked p (i + 1) ρ (Function.update ρ' (p + BitVec.ofNat 16 i) 0xA0) := by
  have hstore : Fills (fun j => p + BitVec.ofNat 16 j) (fun _ => 0xA0) {i} ρ'
      (Function.update ρ' (p + BitVec.ofNat 16 i) 0xA0) := by
    refine ⟨?_, fun a ha => Function.update_of_ne (ha i rfl).symm _ _⟩
    rintro j rfl
    exact Function.update_self _ _ _
  have hset : Set.Iio i ∪ {i} = Set.Iio (i + 1) := by
    ext j
    simp only [Set.mem_union, Set.mem_Iio, Set.mem_singleton_iff]
    omega
  rw [Blanked, ← hset]
  exact h.union hstore fun _ _ _ _ _ => rfl

/-- Page zero and the stack stay, when the cells are elsewhere. -/
theorem Blanked.kept {p : WORD} {i : ℕ} (h : Blanked p i ρ ρ')
    (hcells : ∀ j < i, p + BitVec.ofNat 16 j ∈ highArea) : Set.EqOn ρ' ρ highAreaᶜ :=
  fun a ha => Fills.kept h a fun j hj heq => ha (heq ▸ hcells j hj)

/-- The store of a blank, and the comparison with the width. -/
theorem cleolz_store (lowFirst : Bool) (h : homeCode.In rom) {p : WORD} {i : ℕ}
    (hpc : r.pc = 0xFCA0) (ha : r.a = 0xA0) (hy : r.y = BitVec.ofNat 8 i)
    (hp : pointer ρ 0x28 = p) (hi : i < 0xFF)
    (hcells : ∀ j ≤ i, p + BitVec.ofNat 16 j ∈ highArea ∩ ramArea) :
    Triple (GuestStep lowFirst rom) (At r (Blanked p i ρ)) (11, 4)
      (At { r with
        pc := 0xFCA5
        y := BitVec.ofNat 8 (i + 1)
        c := (ρ (zp 0x21)).toNat ≤ i + 1 } (Blanked p (i + 1) ρ)) := by
  have hsta : Fetch rom 0xFCA0 [0x91, 0x28] 0xFCA2 := h.fetch (by decide) (by decide)
  have hiny : Fetch rom 0xFCA2 [0xC8] 0xFCA3 := h.fetch (by decide) (by decide)
  have hcpy : Fetch rom 0xFCA3 [0xC4, 0x21] 0xFCA5 := h.fetch (by decide) (by decide)
  rintro ⟨s, ρ₁⟩ ⟨rfl, hd, hram⟩
  have hnext : Blanked p (i + 1) ρ (Function.update ρ₁ (p + BitVec.ofNat 16 i) s.a) := by
    have has : s.a = 0xA0 := ha
    rw [has]
    exact hram.succ
  have hcell : pointer ρ₁ 0x28 + s.y.setWidth 16 = p + BitVec.ofNat 16 i := by
    have hkept : ∀ b, ρ₁ (zp b) = ρ (zp b) := fun b =>
      hram.kept (fun j hj => (hcells j hj.le).1) (zp_notMem_highArea b)
    have hindex : s.y.setWidth 16 = BitVec.ofNat 16 i := by
      have hys : s.y = BitVec.ofNat 8 i := hy
      rw [hys]
      bv_omega
    rw [hindex, ← hp, pointer, pointer, hkept, hkept]
  have hstore : GuestStep lowFirst rom (s, ρ₁) (6, 3)
      ({ s with pc := 0xFCA2 }, Function.update ρ₁ (p + BitVec.ofNat 16 i) s.a) := by
    have hmem : pointer ρ₁ 0x28 + s.y.setWidth 16 ∈ ramArea := hcell ▸ (hcells i le_rfl).2
    have hstep := sta_indirectIndexed lowFirst ⟨hpc, hd⟩ hsta (by decide) hmem
    rwa [hcell] at hstep
  have hcount : s.y + 1 = BitVec.ofNat 8 (i + 1) := by
    have hys : s.y = BitVec.ofNat 8 i := hy
    rw [hys]
    bv_omega
  have hwidth : Function.update ρ₁ (p + BitVec.ofNat 16 i) s.a (zp 0x21) = ρ (zp 0x21) :=
    hnext.kept (fun j hj => (hcells j (Nat.le_of_lt_succ hj)).1) (zp_notMem_highArea _)
  have hcarry : decide ((Function.update ρ₁ (p + BitVec.ofNat 16 i) s.a (zp 0x21)).toNat ≤
      (s.y + 1).toNat) = decide ((ρ (zp 0x21)).toNat ≤ i + 1) := by
    rw [hwidth, hcount, BitVec.toNat_ofNat, Nat.mod_eq_of_lt (by omega)]
  exact ⟨_, .head hstore (.head (iny ⟨rfl, hd⟩ hiny) (.single (cpy_zp ⟨rfl, hd⟩ hcpy))),
    Regs.ext rfl rfl rfl rfl hcount hcarry, hd, hnext⟩

/-- `CLEOLZ`: blanks from the pointer on, as many as the window is wide. -/
theorem cleolz_spec (lowFirst : Bool) (h : homeCode.In rom) {p : WORD} {w : ℕ} (hpc : r.pc = 0xFC9E)
    (hy : r.y = 0) (hc : r.c = false) (hp : pointer ρ 0x28 = p)
    (hw : (ρ (zp 0x21)).toNat = w + 1)
    (hcells : ∀ j ≤ w, p + BitVec.ofNat 16 j ∈ highArea ∩ ramArea) :
    Returns lowFirst rom r ρ (14 * (w + 1) + 7, 4 * (w + 1) + 2)
      { r with a := 0xA0, y := ρ (zp 0x21), c := true } (Blanked p (w + 1) ρ) := by
  have hlda : Fetch rom 0xFC9E [0xA9, 0xA0] 0xFCA0 := h.fetch (by decide) (by decide)
  have hbcc : Fetch rom 0xFCA5 [0x90, 0xF9] 0xFCA7 := h.fetch (by decide) (by decide)
  have hrts : Fetch rom 0xFCA7 [0x60] 0xFCA8 := h.fetch (by decide) (by decide)
  have hlt : w < 0xFF := by
    have hbyte := (ρ (zp 0x21)).isLt
    omega
  -- before turn `i` the cells before it are blank
  let I : ℕ → State × (WORD → BYTE) → Prop := fun i =>
    At { r with pc := 0xFCA0, a := 0xA0, y := BitVec.ofNat 8 i, c := false } (Blanked p i ρ)
  have hstart : Triple (GuestStep lowFirst rom) (At r (· = ρ)) (2, 0) (I 0) := by
    rintro ⟨s, ρ⟩ ⟨rfl, hd, rfl⟩
    exact ⟨_, .single (lda_im ⟨hpc, hd⟩ hlda), Regs.ext rfl rfl rfl rfl hy hc, hd, .zero p ρ⟩
  have hstore : ∀ i ≤ w, Triple (GuestStep lowFirst rom) (I i) (11, 4)
      (At { r with
        pc := 0xFCA5
        a := 0xA0
        y := BitVec.ofNat 8 (i + 1)
        c := w + 1 ≤ i + 1 } (Blanked p (i + 1) ρ)) := by
    intro i hi
    have hbody := cleolz_store lowFirst (i := i)
      (r := { r with pc := 0xFCA0, a := 0xA0, y := BitVec.ofNat 8 i, c := false }) h rfl rfl rfl hp
      (by omega) fun j hj => hcells j (hj.trans hi)
    rwa [hw] at hbody
  have hturn : ∀ i < w, Triple (GuestStep lowFirst rom) (I i) (14, 4) (I (i + 1)) := by
    intro i hi
    have hbody := hstore i hi.le
    have hmore : decide (w + 1 ≤ i + 1) = false := decide_eq_false (by omega)
    rw [hmore] at hbody
    exact hbody.seq (At.bcc_to hbcc rfl rfl (by decide) (by decide))
  have hlast : Triple (GuestStep lowFirst rom) (I w) (13, 4)
      (At { r with pc := 0xFCA7, a := 0xA0, y := BitVec.ofNat 8 (w + 1), c := true }
        (Blanked p (w + 1) ρ)) := by
    have hbody := hstore w le_rfl
    have hdone : decide (w + 1 ≤ w + 1) = true := decide_eq_true le_rfl
    rw [hdone] at hbody
    exact hbody.seq (At.bcc_past hbcc rfl rfl)
  have hreturn : Triple (GuestStep lowFirst rom)
      (At { r with pc := 0xFCA7, a := 0xA0, y := BitVec.ofNat 8 (w + 1), c := true }
        (Blanked p (w + 1) ρ)) (6, 2)
      (At { r with
        pc := returnAddress ρ r.sp
        sp := r.sp + 1#8 + 1#8
        a := 0xA0
        y := ρ (zp 0x21)
        c := true } (Blanked p (w + 1) ρ)) := by
    have hcount : BitVec.ofNat 8 (w + 1) = ρ (zp 0x21) := by
      rw [← hw, BitVec.ofNat_toNat, BitVec.setWidth_eq]
    rw [hcount]
    refine At.rts hrts rfl fun ρ₁ hram => ?_
    exact returnAddress_congr (hram.kept fun j hj => (hcells j (Nat.le_of_lt_succ hj)).1)
      (stack_notMem_highArea _) (stack_notMem_highArea _)
  refine (hstart.seq ((Triple.turns w hturn).seq (hlast.seq hreturn))).priced ?_
  rw [Finset.sum_const, Finset.card_range]
  refine Prod.ext ?_ ?_
  · simp only [Prod.fst_add, Prod.smul_fst, Nat.nsmul_eq_mul]
    omega
  · simp only [Prod.snd_add, Prod.smul_snd, Nat.nsmul_eq_mul]
    omega

end Home

end Mos6502

end B2OS
