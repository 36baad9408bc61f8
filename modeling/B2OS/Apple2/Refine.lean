import B2OS.Apple2.Run
import B2OS.Apple2.Mos6502

/-!
# The Emulator Refines the Documented 6502

One iteration of the loop of `ac_Run` does what the documented processor does: it leaves
the same registers and flags and performs the same bus accesses in the same order, on
every bus. The comparison is by `BusProg.Matches`, so cycles are left out of it.

The arms of the switch are compared by family. A mode of the emulator and its documented
counterpart locate the same operand (`Addresses.locates`); arms that load, store or modify
an operand then differ only in what they do with the byte.

## Main results

* `Addresses.locates`: the addressing modes agree.
* `acExecute_refines`: the arms of the switch agree with the documented mnemonics.
* `acStep_refines_mos6502`: one iteration of the loop is one documented instruction.
-/

universe u

namespace B2OS

open BusProg
open Mos6502 (MosM Mnemonic Mode)

/-- The registers of the emulator, as the documented processor has them. -/
def Cpu.view (c : Cpu) : Mos6502.State where
  a := c.A
  x := c.X
  y := c.Y
  sp := c.SP
  pc := c.PC
  n := c.PS.N
  v := c.PS.V
  d := c.PS.D
  i := c.PS.I
  z := c.PS.Z
  c := c.PS.C

/-- The two bits of the status register that are no flags of the processor. -/
def Cpu.hidden (c : Cpu) : Bool × Bool := (c.PS.B, c.PS.Unused)

theorem Cpu.hidden_congr {c c' : Cpu} (h : c'.PS = c.PS) : c'.hidden = c.hidden := by
  rw [Cpu.hidden, h, Cpu.hidden]

/-! ### Bytes and addresses -/

@[simp] theorem and_byte_mask (b : BYTE) : b &&& 255#8 = b := BitVec.and_allOnes

/-- The status byte that `PHP` and `BRK` push has bits 4 and 5 set. -/
theorem pushed_status {f : StatusFlags} (h : f.Unused = true) :
    f.toByte ||| FLAG_BREAK =
      BitVec.ofBoolListBE [f.N, f.V, true, true, f.D, f.I, f.Z, f.C] := by
  obtain ⟨c, z, i, d, b, u, v, n⟩ := f
  obtain rfl : u = true := h
  rw [StatusFlags.toByte_or_break]
  rfl

namespace Mos6502

theorem zp_eq (b : BYTE) : zp b = b.setWidth 16 := by
  have hb := b.isLt
  apply BitVec.eq_of_toNat_eq
  rw [zp, BitVec.toNat_append]
  simp
  omega

theorem stack_eq (sp : BYTE) : stack sp = STACK_ADDRESS + sp.setWidth 16 := by
  have hsp := sp.isLt
  have hor : 0x100 + sp.toNat = 0x100 ||| sp.toNat := Nat.two_pow_add_eq_or_of_lt hsp 1
  apply BitVec.eq_of_toNat_eq
  rw [stack, BitVec.toNat_append]
  simp [STACK_ADDRESS, ← hor]
  omega

theorem append_eq_mkWord (h l : BYTE) : (h ++ l : WORD) = mkWord l h := by
  unfold mkWord
  ext i
  simp
  grind

theorem mkWord_toNat (l h : BYTE) : (mkWord l h).toNat = h.toNat * 256 + l.toNat := by
  rw [← append_eq_mkWord, BitVec.toNat_append, ← Nat.shiftLeft_add_eq_or_of_lt l.isLt,
    Nat.shiftLeft_eq]

theorem hi_eq (w : WORD) : hi w = (w >>> 8).setWidth 8 := rfl

theorem lo_eq (w : WORD) : lo w = w.setWidth 8 := by
  ext i
  simp [lo]

/-- The next byte of the zero page is the next address, except at its end. -/
theorem zp_succ {p : BYTE} (h : p ≠ 0xFF) :
    (p + 1#8).setWidth 16 = p.setWidth 16 + 1#16 := by
  bv_omega

/-- The next byte of a page is the next address, except at its end. -/
theorem mkWord_succ {l : BYTE} (h : BYTE) (hl : l ≠ 0xFF) :
    mkWord (l + 1#8) h = mkWord l h + 1#16 := by
  apply BitVec.eq_of_toNat_eq
  have hl' : l.toNat ≠ 255 := fun e => hl (BitVec.eq_of_toNat_eq e)
  have h1 := mkWord_toNat l h
  have h2 := mkWord_toNat (l + 1) h
  have := h.isLt
  bv_omega

end Mos6502

/-! ### Arithmetic -/

theorem and_flag_negative (v : BYTE) :
    v &&& FLAG_NEGATIVE = if v.msb then FLAG_NEGATIVE else 0 := BitVec.and_twoPow v 7

@[simp] theorem flag_negative_pos (v : BYTE) :
    decide (0#8 < v &&& FLAG_NEGATIVE) = v.msb := by
  rw [and_flag_negative]
  cases v.msb <;> rfl

@[simp] theorem flag_negative_ne (v : BYTE) : (v &&& FLAG_NEGATIVE != 0#8) = v.msb := by
  rw [and_flag_negative]
  cases v.msb <;> rfl

/-- The low byte of the word sum of `ac_Execute_ADC`. -/
theorem low_of_sum (a v : BYTE) (c : Bool) :
    (a.setWidth 16 + v.setWidth 16 + if c then 1#16 else 0#16).setWidth 8 =
      BitVec.ofNat 8 (a.toNat + v.toNat + c.toNat) := by
  cases c <;> simp <;> bv_omega

/-- The high byte of a sum of nine bits is its top bit. -/
theorem and_high_byte (r : BitVec 9) :
    r.setWidth 16 &&& 0xFF00#16 = if r.msb then 0x100#16 else 0#16 := by
  refine BitVec.eq_of_getElem_eq fun i hi => ?_
  interval_cases i <;> cases h : r.msb <;> simp_all [BitVec.msb_eq_getLsbD_last]

/-- The carry that `ac_SetCarryFlag` finds in the word sum. -/
theorem carry_of_sum (a v : BYTE) (c : Bool) :
    0#16 < (a.setWidth 16 + v.setWidth 16 + if c then 1#16 else 0#16) &&& 0xFF00#16 ↔
      255 < a.toNat + v.toNat + c.toNat := by
  have key : ∀ r : BitVec 9, 0#16 < r.setWidth 16 &&& 0xFF00#16 ↔ 255 < r.toNat := by
    intro r
    rw [and_high_byte, BitVec.msb_eq_decide]
    simp
    split_ifs <;> simp <;> omega
  have hsum : (a.setWidth 16 + v.setWidth 16 + if c then 1#16 else 0#16) =
      (BitVec.ofNat 9 (a.toNat + v.toNat + c.toNat)).setWidth 16 := by
    cases c <;> simp <;> bv_omega
  have h9 : (BitVec.ofNat 9 (a.toNat + v.toNat + c.toNat)).toNat =
      a.toNat + v.toNat + c.toNat := by
    have := a.isLt
    have := v.isLt
    cases c <;> simp <;> omega
  rw [hsum, key, h9]

/-- The sign test of `ac_SetOverflow` is signed overflow of the sum. -/
theorem overflow_of_signs (a v : BYTE) (c : Bool) :
    ((a ^^^ v) &&& FLAG_NEGATIVE == 0#8 &&
      (BitVec.ofNat 8 (a.toNat + v.toNat + c.toNat) ^^^ v).msb) =
      (decide (a.toInt + v.toInt + c.toNat < -128) ||
        decide (127 < a.toInt + v.toInt + c.toNat)) := by
  have hneg : ∀ v : BYTE, v &&& FLAG_NEGATIVE = if v.msb then 0x80 else 0 := and_flag_negative
  have ha := a.isLt
  have hv := v.isLt
  have hc : c.toNat ≤ 1 := Bool.toNat_le c
  simp only [hneg, BitVec.msb_xor]
  simp only [BitVec.toInt_eq_msb_cond, BitVec.msb_eq_decide]
  by_cases h1 : 2 ^ (8 - 1) ≤ a.toNat <;> by_cases h2 : 2 ^ (8 - 1) ≤ v.toNat <;>
    by_cases h3 : 2 ^ (8 - 1) ≤ (BitVec.ofNat 8 (a.toNat + v.toNat + c.toNat)).toNat <;>
    simp only [h1, h2, h3] <;> simp at h1 h2 h3 ⊢ <;> omega

/-- Subtraction is addition of the complement: `A - M - (1 - C)` is `A + (255 - M) + C`
less 256, and in two's complement `-1 - M` is `~M`. -/
theorem sbc_eq_adc_not (m : BYTE) (s : Mos6502.State) : s.sbc m = s.adc (~~~m) := by
  have hm := m.isLt
  have hnat : (~~~m).toNat = 255 - m.toNat := by simp [BitVec.toNat_not]
  have hint : (~~~m).toInt = -1 - m.toInt := by
    simp only [BitVec.toInt_eq_msb_cond, BitVec.msb_eq_decide]
    by_cases h : 2 ^ (8 - 1) ≤ m.toNat <;> simp [hnat] at h ⊢ <;> omega
  have hc : s.c.toNat ≤ 1 := Bool.toNat_le s.c
  have hbyte : BitVec.ofInt 8 ((s.a.toNat : ℤ) - m.toNat - (1 - s.c.toNat)) =
      BitVec.ofNat 8 (s.a.toNat + (255 - m.toNat) + s.c.toNat) := by
    apply BitVec.eq_of_toNat_eq
    simp only [BitVec.toNat_ofInt, BitVec.toNat_ofNat]
    omega
  have hcarry : (0 ≤ (s.a.toNat : ℤ) - m.toNat - (1 - s.c.toNat)) ↔
      255 < s.a.toNat + (255 - m.toNat) + s.c.toNat := by omega
  have hsigned : s.a.toInt - m.toInt - (1 - s.c.toNat) =
      s.a.toInt + (-1 - m.toInt) + s.c.toNat := by omega
  simp only [Mos6502.State.sbc, Mos6502.State.adc, hnat, hint, hbyte, hcarry, hsigned]

/-! ### Addressing modes -/

section

variable {σ : Type u} {bus : Bus WORD BYTE σ} {c : Cpu} {s : σ}

/-- The pointer of an indirect mode does not straddle the end of its page. `c` and `s`
stand behind the fetch of the opcode, so the byte at `PC` is the first operand byte. -/
def PointerInPage (bus : Bus WORD BYTE σ) (m : Mode) (c : Cpu) (s : σ) : Prop :=
  match m with
  | .indexedIndirect => (bus.read c.PC s).1 + c.X ≠ 0xFF
  | .indirectIndexed | .indirect => (bus.read c.PC s).1 ≠ 0xFF
  | _ => True

/-- A mode of the emulator locates the operand of the documented mode. -/
def Locates (bus : Bus WORD BYTE σ) (mode : CyclePtr → AcM WORD) (m : Mode) (c : Cpu)
    (s : σ) : Prop :=
  Matches bus (fun r r' => r'.1.1 = r.1 ∧ r'.2 = r.2.view ∧ r.2.PS = c.PS)
    ((mode 0).run c) ((Mos6502.effective m).run c.view) s

/-- The addressing modes of the emulator and the documented modes they stand for. -/
inductive Addresses : Mode → (CyclePtr → AcM WORD) → Prop
  | ZP : Addresses .zeroPage acAddrModeZP
  | ZPX : Addresses .zeroPageX acAddrModeZPX
  | ZPY : Addresses .zeroPageY acAddrModeZPY
  | ABS : Addresses .absolute acAddrModeABS
  | ABSX : Addresses .absoluteX acAddrModeABSX
  | ABSXNoPage : Addresses .absoluteX acAddrModeABSXNoPage
  | ABSY : Addresses .absoluteY acAddrModeABSY
  | ABSYNoPage : Addresses .absoluteY acAddrModeABSYNoPage
  | INDX : Addresses .indexedIndirect acAddrModeINDX
  | INDY : Addresses .indirectIndexed acAddrModeINDY

theorem Addresses.locates {mode : CyclePtr → AcM WORD} {m : Mode} (h : Addresses m mode)
    (hp : PointerInPage bus m c s) : Locates bus mode m c s := by
  unfold Locates
  cases h with
  | ZP => simp [acAddrModeZP, Mos6502.effective, Mos6502.zp_eq, Cpu.view]
  | ZPX => simp [acAddrModeZPX, Mos6502.effective, Mos6502.zp_eq, Cpu.view]
  | ZPY => simp [acAddrModeZPY, Mos6502.effective, Mos6502.zp_eq, Cpu.view]
  | ABS => simp [acAddrModeABS, Mos6502.effective, Mos6502.append_eq_mkWord, Cpu.view]
  | ABSX =>
      simp [acAddrModeABSX, Mos6502.effective, Mos6502.append_eq_mkWord, Mos6502.indexed,
        Cpu.view]
  | ABSXNoPage =>
      simp [acAddrModeABSXNoPage, Mos6502.effective, Mos6502.append_eq_mkWord,
        Mos6502.indexed, Cpu.view]
  | ABSY =>
      simp [acAddrModeABSY, Mos6502.effective, Mos6502.append_eq_mkWord, Mos6502.indexed,
        Cpu.view]
  | ABSYNoPage =>
      simp [acAddrModeABSYNoPage, Mos6502.effective, Mos6502.append_eq_mkWord,
        Mos6502.indexed, Cpu.view]
  | INDX =>
      simp [acAddrModeINDX, Mos6502.effective, Mos6502.append_eq_mkWord, Mos6502.zp_eq,
        Cpu.view, Mos6502.zp_succ hp]
  | INDY =>
      simp [acAddrModeINDY, Mos6502.effective, Mos6502.append_eq_mkWord, Mos6502.zp_eq,
        Mos6502.indexed, Cpu.view, Mos6502.zp_succ hp]

/-- What follows an addressing mode may assume that both machines hold the same address
and the same registers. -/
theorem Locates.bind {mode : CyclePtr → AcM WORD} {m : Mode} (h : Locates bus mode m c s)
    {γ δ : Type} {f : WORD → AcM γ} {g : WORD × Bool → MosM δ}
    {R : γ × Cpu → δ × Mos6502.State → Prop}
    (hfg : ∀ addr crossed c' t, c'.PS = c.PS →
      Matches bus R ((f addr).run c') ((g (addr, crossed)).run c'.view) t) :
    Matches bus R ((mode 0 >>= f).run c) ((Mos6502.effective m >>= g).run c.view) s := by
  rw [StateT.run_bind, StateT.run_bind]
  refine Matches.bind h ?_
  rintro ⟨addr, c'⟩ ⟨⟨addr', crossed⟩, s'⟩ t ⟨haddr, hview, hPS⟩
  obtain rfl : addr' = addr := haddr
  obtain rfl : s' = c'.view := hview
  exact hfg addr' crossed c' t hPS

/-! ### Families of instructions -/

/-- The registers and the operand byte behind a read of the operand. -/
def Loads (bus : Bus WORD BYTE σ) (rd : AcM BYTE) (m : Mode) (c : Cpu) (s : σ) : Prop :=
  Matches bus (fun r r' => r'.1 = r.1 ∧ r'.2 = r.2.view ∧ r.2.PS = c.PS)
    (rd.run c) ((Mos6502.load m).run c.view) s

theorem loads_immediate : Loads bus (acFetch 0) .immediate c s := by
  simp [Loads, Mos6502.load, Mos6502.effective, Cpu.view]

theorem Addresses.loads {mode : CyclePtr → AcM WORD} {m : Mode} (h : Addresses m mode)
    (hp : PointerInPage bus m c s) : Loads bus (operand mode) m c s := by
  refine (h.locates hp).bind fun addr crossed c' t hPS => ?_
  cases crossed <;> simpa using hPS

/-- A computation of the emulator **refines** a documented one: same accesses, same
registers, and the hidden status bits stay. -/
def Refines (bus : Bus WORD BYTE σ) (op : AcM Unit) (op' : MosM Unit) (c : Cpu) (s : σ) :
    Prop :=
  Matches bus (fun r r' => r'.2 = r.2.view ∧ r.2.hidden = c.hidden) (op.run c)
    (op'.run c.view) s

theorem refines_reading {rd : AcM BYTE} {m : Mode} {op : BYTE → AcM Unit}
    {f : BYTE → Mos6502.State → Mos6502.State} (h : Loads bus rd m c s)
    (hop : ∀ v c' t, c'.PS = c.PS → Refines bus (op v) (modify (f v)) c' t) :
    Refines bus (rd >>= op) (Mos6502.reading m f) c s := by
  unfold Refines Mos6502.reading
  rw [StateT.run_bind, StateT.run_bind]
  refine Matches.bind h ?_
  rintro ⟨v, c'⟩ ⟨v', s'⟩ t ⟨hv, hview, hPS⟩
  obtain rfl : v' = v := hv
  obtain rfl : s' = c'.view := hview
  refine (hop v' c' t hPS).mono ?_
  rintro r r' ⟨hr, hhid⟩
  exact ⟨hr, hhid.trans (Cpu.hidden_congr hPS)⟩

theorem refines_storing {mode : CyclePtr → AcM WORD} {m : Mode} (h : Addresses m mode)
    (hp : PointerInPage bus m c s) {reg : Cpu → BYTE} {reg' : Mos6502.State → BYTE}
    (hreg : ∀ c, reg' c.view = reg c) :
    Refines bus (storeAt mode reg) (Mos6502.storing m reg') c s := by
  refine (h.locates hp).bind fun addr crossed c' t hPS => ?_
  simp [hreg, Cpu.hidden_congr hPS]

theorem refines_stepping {mode : CyclePtr → AcM WORD} {m : Mode} (h : Addresses m mode)
    (hp : PointerInPage bus m c s) (step : BYTE → BYTE) :
    Refines bus (stepAt mode step)
      (Mos6502.modifying m fun v s => (step v, s.nz (step v))) c s := by
  refine (h.locates hp).bind fun addr crossed c' t hPS => ?_
  simp [Cpu.hidden, hPS, Cpu.view, Mos6502.State.nz, beq_eq_decide]

/-- A shift of the emulator computes the documented byte and flags. -/
def Shifts (op : BYTE → CyclePtr → AcM BYTE) (m : Mnemonic) : Prop :=
  ∀ v c, ∃ c' : Cpu, (op v 0).run c = .ret ((Mos6502.shift m v c.view).1, c') ∧
    c'.view = (Mos6502.shift m v c.view).2 ∧ c'.hidden = c.hidden

theorem refines_shifting {mode : CyclePtr → AcM WORD} {m : Mode} (h : Addresses m mode)
    (hp : PointerInPage bus m c s) {op : BYTE → CyclePtr → AcM BYTE} {mn : Mnemonic}
    (hop : Shifts op mn) :
    Refines bus (shiftAt mode op) (Mos6502.shifting mn m) c s := by
  have hmem : Mos6502.shifting mn m = Mos6502.modifying m (Mos6502.shift mn) := by
    cases h <;> rfl
  rw [hmem]
  refine (h.locates hp).bind fun addr crossed c' t hPS => ?_
  obtain ⟨c'', hrun, hview, hhid⟩ := hop ((bus.read addr t).1) c'
  simp [hrun, ← hview, hhid, Cpu.hidden_congr hPS]

theorem refines_shiftingA {op : BYTE → CyclePtr → AcM BYTE} {mn : Mnemonic}
    (hop : Shifts op mn) :
    Refines bus (do setA (← op (← get).A 0)) (Mos6502.shifting mn .accumulator) c s := by
  obtain ⟨c', hrun, hview, hhid⟩ := hop c.A c
  have hA : c.view.a = c.A := rfl
  simp [Refines, Mos6502.shifting, hrun, setA, ← hview, hA]
  exact ⟨rfl, hhid⟩

theorem refines_branch {flag condition : Bool} {taken : Mos6502.State → Bool}
    (h : ∀ c' : Cpu, c'.PS = c.PS → taken c'.view = decide (flag = condition)) :
    Refines bus (acExecuteBRANCH flag condition 0) (Mos6502.branch .relative taken) c s := by
  have htaken := h { c with PC := c.PC + 1#16 } rfl
  simp only [Cpu.view] at htaken
  by_cases hc : flag = condition
  · simp only [Refines, acExecuteBRANCH, Mos6502.branch, Mos6502.effective, Cpu.view]
    simp [htaken, hc, setPC]
    split <;> simp [Cpu.hidden]
  · simp [Refines, acExecuteBRANCH, Mos6502.branch, Mos6502.effective, Cpu.view, htaken, hc,
      Cpu.hidden]

/-! ### Operations on the registers -/

theorem refines_loadA (v : BYTE) :
    Refines bus (loadA v) (modify (Mos6502.State.lda v)) c s := by
  simp [Refines, loadA, setA, Mos6502.State.lda, Mos6502.State.nz, Cpu.view, Cpu.hidden,
    beq_eq_decide]

theorem refines_loadX (v : BYTE) :
    Refines bus (loadX v) (modify (Mos6502.State.ldx v)) c s := by
  simp [Refines, loadX, setX, Mos6502.State.ldx, Mos6502.State.nz, Cpu.view, Cpu.hidden,
    beq_eq_decide]

theorem refines_loadY (v : BYTE) :
    Refines bus (loadY v) (modify (Mos6502.State.ldy v)) c s := by
  simp [Refines, loadY, setY, Mos6502.State.ldy, Mos6502.State.nz, Cpu.view, Cpu.hidden,
    beq_eq_decide]

theorem refines_andA (v : BYTE) :
    Refines bus (andA v) (modify fun s => s.lda (s.a &&& v)) c s := by
  have h : Refines bus (loadA (c.A &&& v)) _ c s := refines_loadA (c.A &&& v)
  simpa [Refines, andA, Cpu.view] using h

theorem refines_oraA (v : BYTE) :
    Refines bus (oraA v) (modify fun s => s.lda (s.a ||| v)) c s := by
  have h : Refines bus (loadA (c.A ||| v)) _ c s := refines_loadA (c.A ||| v)
  simpa [Refines, oraA, Cpu.view] using h

theorem refines_eorA (v : BYTE) :
    Refines bus (eorA v) (modify fun s => s.lda (s.a ^^^ v)) c s := by
  have h : Refines bus (loadA (c.A ^^^ v)) _ c s := refines_loadA (c.A ^^^ v)
  simpa [Refines, eorA, Cpu.view] using h

theorem refines_compare (r v : BYTE) :
    Refines bus (compareFlags r v) (modify (Mos6502.State.compare r v)) c s := by
  simp [Refines, compareFlags, setPS, Mos6502.State.compare, Mos6502.State.nz, Cpu.view,
    Cpu.hidden, beq_eq_decide, ← BitVec.le_def]

theorem refines_acExecuteCMP (v : BYTE) :
    Refines bus (acExecuteCMP v) (modify fun s => s.compare s.a v) c s := by
  have h : Refines bus (compareFlags c.A v) _ c s := refines_compare c.A v
  simpa [Refines, acExecuteCMP, Cpu.view] using h

theorem refines_acExecuteCPX (v : BYTE) :
    Refines bus (acExecuteCPX v) (modify fun s => s.compare s.x v) c s := by
  have h : Refines bus (compareFlags c.X v) _ c s := refines_compare c.X v
  simpa [Refines, acExecuteCPX, Cpu.view] using h

theorem refines_acExecuteCPY (v : BYTE) :
    Refines bus (acExecuteCPY v) (modify fun s => s.compare s.y v) c s := by
  have h : Refines bus (compareFlags c.Y v) _ c s := refines_compare c.Y v
  simpa [Refines, acExecuteCPY, Cpu.view] using h

theorem refines_bitTest (v : BYTE) :
    Refines bus (bitTest v) (modify (Mos6502.State.bit v)) c s := by
  have hn : ∀ v : BYTE, v[7] = v.msb := fun v => by simp [BitVec.msb_eq_getLsbD_last]
  have hv : ∀ v : BYTE, v[6] = (v &&& FLAG_OVERFLOW != 0#8) := by
    intro v
    have hmask : v &&& FLAG_OVERFLOW = if v[6] then FLAG_OVERFLOW else 0 := BitVec.and_twoPow v 6
    rw [hmask]
    cases v[6] <;> rfl
  simp [Refines, bitTest, setPS, Mos6502.State.bit, Cpu.view, Cpu.hidden, beq_eq_decide,
    hn, hv]

theorem refines_acExecuteADC (v : BYTE) (hD : c.PS.D = false) :
    Refines bus (acExecuteADC v) (modify (Mos6502.State.adc v)) c s := by
  simp [Refines, acExecuteADC, setA, setPS, acSetCarryFlag, acSetOverflow,
    Mos6502.State.adc, Mos6502.State.lda, Mos6502.State.nz, Cpu.view, Cpu.hidden, hD,
    low_of_sum, carry_of_sum, ← overflow_of_signs, beq_eq_decide,
    -BitVec.msb_xor, -BitVec.msb_and]

theorem refines_acExecuteSBC (v : BYTE) (hD : c.PS.D = false) :
    Refines bus (acExecuteSBC v) (modify (Mos6502.State.sbc v)) c s := by
  have hadc : Refines bus (acExecuteADC (~~~v)) _ c s := refines_acExecuteADC (~~~v) hD
  rwa [← funext (sbc_eq_adc_not v)] at hadc

/-- A byte shifted to the left, with the bit that comes in. -/
theorem concat_shiftLeft (b : Bool) (v : BYTE) :
    (v.setWidth 7).concat b = v <<< 1 ||| if b then 1#8 else 0#8 := by
  refine BitVec.eq_of_getElem_eq fun i hi => ?_
  interval_cases i <;> cases b <;> simp [BitVec.getElem_concat]

/-- A byte shifted to the right, with the bit that comes in. -/
theorem cons_shiftRight (b : Bool) (v : BYTE) :
    BitVec.cons b (v.extractLsb' 1 7) = v >>> 1 ||| if b then FLAG_NEGATIVE else 0#8 := by
  refine BitVec.eq_of_getElem_eq fun i hi => ?_
  interval_cases i <;> cases b <;> simp [BitVec.getElem_cons, FLAG_NEGATIVE]

theorem and_flag_carry (v : BYTE) : v &&& FLAG_CARRY = if v[0] then FLAG_CARRY else 0 :=
  BitVec.and_twoPow v 0

theorem shifts_ASL : Shifts acExecuteASL .ASL := by
  have hshift : ∀ v : BYTE, (v.setWidth 7).concat false = v <<< 1 := by
    simpa using concat_shiftLeft false
  intro v c
  simp [acExecuteASL, setPS, Mos6502.shift, hshift, Mos6502.State.nz, Cpu.view, Cpu.hidden,
    beq_eq_decide]

theorem shifts_LSR : Shifts acExecuteLSR .LSR := by
  have hshift : ∀ v : BYTE, BitVec.cons false (v.extractLsb' 1 7) = v >>> 1 := by
    simpa using cons_shiftRight false
  have hcarry : ∀ v : BYTE, (v &&& 1#8 != 0#8) = v[0] := by
    intro v
    have hmask : v &&& 1#8 = if v[0] then 1#8 else 0 := and_flag_carry v
    rw [hmask]
    cases v[0] <;> rfl
  intro v c
  simp [acExecuteLSR, setPS, Mos6502.shift, hshift, hcarry, Mos6502.State.nz, Cpu.view,
    Cpu.hidden, beq_eq_decide]

theorem shifts_ROL : Shifts acExecuteROL .ROL := by
  intro v c
  simp [acExecuteROL, setPS, Mos6502.shift, concat_shiftLeft, Mos6502.State.nz, Cpu.view, Cpu.hidden,
    beq_eq_decide]

theorem shifts_ROR : Shifts acExecuteROR .ROR := by
  have hcarry : ∀ v : BYTE, decide (0#8 < v &&& FLAG_CARRY) = v[0] := by
    intro v
    rw [and_flag_carry]
    cases v[0] <;> rfl
  intro v c
  simp [acExecuteROR, setPS, Mos6502.shift, cons_shiftRight, hcarry, Mos6502.State.nz, Cpu.view,
    Cpu.hidden, beq_eq_decide]

/-! ### Arms with a body of their own -/

attribute [local simp] Mos6502.execute

theorem refines_STA_INDY (hp : PointerInPage bus .indirectIndexed c s) :
    Refines bus armSTA_INDY (Mos6502.storing .indirectIndexed Mos6502.State.a) c s := by
  simp [Refines, armSTA_INDY, Mos6502.storing, Mos6502.effective, Mos6502.indexed,
    Mos6502.zp_eq, Mos6502.append_eq_mkWord, Mos6502.zp_succ hp, Cpu.view, Cpu.hidden]

theorem refines_JSR (lowFirst : Bool) :
    Refines bus armJSR (Mos6502.execute lowFirst .JSR .absolute) c s := by
  -- The manual pushes the address of the last byte of the instruction.
  have hlast : c.PC + 1#16 + 1#16 - 1#16 = c.PC + 1#16 := by bv_omega
  simp [Refines, armJSR, Mos6502.effective, Mos6502.stack_eq,
    Mos6502.hi_eq, Mos6502.lo_eq, Mos6502.append_eq_mkWord, setPC, Cpu.view, Cpu.hidden,
    hlast]

theorem refines_JMP_ABS (lowFirst : Bool) :
    Refines bus (do setPC (← acAddrModeABS 0)) (Mos6502.execute lowFirst .JMP .absolute)
      c s := by
  simp [Refines, acAddrModeABS, Mos6502.effective,
    Mos6502.append_eq_mkWord, setPC, Cpu.view, Cpu.hidden]

theorem refines_JMP_IND (lowFirst : Bool) (hp : PointerInPage bus .indirect c s) :
    Refines bus armJMP_IND (Mos6502.execute lowFirst .JMP .indirect) c s := by
  have hnext := fun h => Mos6502.mkWord_succ h hp
  simp [Refines, armJMP_IND, Mos6502.effective,
    Mos6502.append_eq_mkWord, setPC, Cpu.view, Cpu.hidden, hnext]

theorem refines_RTS (lowFirst : Bool) (m : Mode) :
    Refines bus armRTS (Mos6502.execute lowFirst .RTS m) c s := by
  simp [Refines, armRTS, Mos6502.stack_eq, Mos6502.append_eq_mkWord,
    setPC, Cpu.view, Cpu.hidden]

theorem refines_PHP (lowFirst : Bool) (m : Mode) (hU : c.PS.Unused = true) :
    Refines bus armPHP (Mos6502.execute lowFirst .PHP m) c s := by
  simp [Refines, armPHP, Mos6502.stack_eq, Mos6502.State.status,
    pushed_status hU, Cpu.view, Cpu.hidden]

theorem matches_PLP (lowFirst : Bool) (m : Mode) :
    Matches bus (fun r r' => r'.2 = r.2.view) (armPLP.run c)
      ((Mos6502.execute lowFirst .PLP m).run c.view) s := by
  simp [armPLP, Mos6502.stack_eq, Mos6502.State.setStatus, setPS, Cpu.view,
    StatusFlags.ofByte, FLAG_UNUSED]

theorem refines_BRK (order : EvalOrder) (m : Mode) (hD : c.PS.D = false)
    (hU : c.PS.Unused = true) :
    Refines bus (armBRK order) (Mos6502.execute (order == .leftFirst) .BRK m) c s := by
  have hstatus := pushed_status hU
  rw [hD] at hstatus
  cases order <;>
    simp [Refines, armBRK, Mos6502.stack_eq, Mos6502.State.status,
      Mos6502.hi_eq, Mos6502.lo_eq, Mos6502.append_eq_mkWord, STACK_ADDRESS, setSP, setPC,
      setPS, safeDec, readVector, hstatus, Cpu.view, Cpu.hidden, hD]

theorem matches_RTI (lowFirst : Bool) (m : Mode) :
    Matches bus (fun r r' => r'.2 = r.2.view) (armRTI.run c)
      ((Mos6502.execute lowFirst .RTI m).run c.view) s := by
  simp [armRTI, Mos6502.stack_eq, Mos6502.State.setStatus,
    Mos6502.append_eq_mkWord, mkWord, STACK_ADDRESS, setSP, setPC, setPS, safeInc, Cpu.view,
    StatusFlags.ofByte, BitVec.or_comm]

/-! ### One lemma for each mnemonic with an operand -/

section

variable {lowFirst : Bool} {m : Mode} {rd : AcM BYTE} {mode : CyclePtr → AcM WORD}

theorem refines_LDA (h : Loads bus rd m c s) :
    Refines bus (rd >>= loadA) (Mos6502.execute lowFirst .LDA m) c s :=
  refines_reading h fun v _ _ _ => refines_loadA v

theorem refines_LDX (h : Loads bus rd m c s) :
    Refines bus (rd >>= loadX) (Mos6502.execute lowFirst .LDX m) c s :=
  refines_reading h fun v _ _ _ => refines_loadX v

theorem refines_LDY (h : Loads bus rd m c s) :
    Refines bus (rd >>= loadY) (Mos6502.execute lowFirst .LDY m) c s :=
  refines_reading h fun v _ _ _ => refines_loadY v

theorem refines_AND (h : Loads bus rd m c s) :
    Refines bus (rd >>= andA) (Mos6502.execute lowFirst .AND m) c s :=
  refines_reading h fun v _ _ _ => refines_andA v

theorem refines_ORA (h : Loads bus rd m c s) :
    Refines bus (rd >>= oraA) (Mos6502.execute lowFirst .ORA m) c s :=
  refines_reading h fun v _ _ _ => refines_oraA v

theorem refines_EOR (h : Loads bus rd m c s) :
    Refines bus (rd >>= eorA) (Mos6502.execute lowFirst .EOR m) c s :=
  refines_reading h fun v _ _ _ => refines_eorA v

theorem refines_ADC (h : Loads bus rd m c s) (hD : c.PS.D = false) :
    Refines bus (rd >>= acExecuteADC) (Mos6502.execute lowFirst .ADC m) c s :=
  refines_reading h fun v _ _ hPS => refines_acExecuteADC v (by rw [hPS, hD])

theorem refines_SBC (h : Loads bus rd m c s) (hD : c.PS.D = false) :
    Refines bus (rd >>= acExecuteSBC) (Mos6502.execute lowFirst .SBC m) c s :=
  refines_reading h fun v _ _ hPS => refines_acExecuteSBC v (by rw [hPS, hD])

theorem refines_CMP (h : Loads bus rd m c s) :
    Refines bus (rd >>= acExecuteCMP) (Mos6502.execute lowFirst .CMP m) c s :=
  refines_reading h fun v _ _ _ => refines_acExecuteCMP v

theorem refines_CPX (h : Loads bus rd m c s) :
    Refines bus (rd >>= acExecuteCPX) (Mos6502.execute lowFirst .CPX m) c s :=
  refines_reading h fun v _ _ _ => refines_acExecuteCPX v

theorem refines_CPY (h : Loads bus rd m c s) :
    Refines bus (rd >>= acExecuteCPY) (Mos6502.execute lowFirst .CPY m) c s :=
  refines_reading h fun v _ _ _ => refines_acExecuteCPY v

theorem refines_BIT (h : Loads bus rd m c s) :
    Refines bus (rd >>= bitTest) (Mos6502.execute lowFirst .BIT m) c s :=
  refines_reading h fun v _ _ _ => refines_bitTest v

theorem refines_STA (h : Addresses m mode) (hp : PointerInPage bus m c s) :
    Refines bus (storeAt mode Cpu.A) (Mos6502.execute lowFirst .STA m) c s :=
  refines_storing h hp fun _ => rfl

theorem refines_STX (h : Addresses m mode) (hp : PointerInPage bus m c s) :
    Refines bus (storeAt mode Cpu.X) (Mos6502.execute lowFirst .STX m) c s :=
  refines_storing h hp fun _ => rfl

theorem refines_STY (h : Addresses m mode) (hp : PointerInPage bus m c s) :
    Refines bus (storeAt mode Cpu.Y) (Mos6502.execute lowFirst .STY m) c s :=
  refines_storing h hp fun _ => rfl

theorem refines_INC (h : Addresses m mode) (hp : PointerInPage bus m c s) :
    Refines bus (stepAt mode (· + 1)) (Mos6502.execute lowFirst .INC m) c s :=
  refines_stepping h hp _

theorem refines_DEC (h : Addresses m mode) (hp : PointerInPage bus m c s) :
    Refines bus (stepAt mode (· - 1)) (Mos6502.execute lowFirst .DEC m) c s :=
  refines_stepping h hp _

theorem refines_ASL (h : Addresses m mode) (hp : PointerInPage bus m c s) :
    Refines bus (shiftAt mode acExecuteASL) (Mos6502.execute lowFirst .ASL m) c s :=
  refines_shifting h hp shifts_ASL

theorem refines_LSR (h : Addresses m mode) (hp : PointerInPage bus m c s) :
    Refines bus (shiftAt mode acExecuteLSR) (Mos6502.execute lowFirst .LSR m) c s :=
  refines_shifting h hp shifts_LSR

theorem refines_ROL (h : Addresses m mode) (hp : PointerInPage bus m c s) :
    Refines bus (shiftAt mode acExecuteROL) (Mos6502.execute lowFirst .ROL m) c s :=
  refines_shifting h hp shifts_ROL

theorem refines_ROR (h : Addresses m mode) (hp : PointerInPage bus m c s) :
    Refines bus (shiftAt mode acExecuteROR) (Mos6502.execute lowFirst .ROR m) c s :=
  refines_shifting h hp shifts_ROR

end

/-! ### The switch -/

/-- The documented mnemonic of an opcode name. -/
def Opcode.mnemonic : Opcode → Mnemonic
  | .LDA_IM | .LDA_ZP | .LDA_ZPX | .LDA_ABS | .LDA_ABSX | .LDA_ABSY | .LDA_INDX
  | .LDA_INDY => .LDA
  | .LDX_IM | .LDX_ZP | .LDX_ZPY | .LDX_ABS | .LDX_ABSY => .LDX
  | .LDY_IM | .LDY_ZP | .LDY_ZPX | .LDY_ABS | .LDY_ABSX => .LDY
  | .NOP => .NOP
  | .JSR => .JSR
  | .JMP_ABS | .JMP_IND => .JMP
  | .RTS => .RTS
  | .STA_ZP | .STA_ZPX | .STA_ABS | .STA_ABSX | .STA_ABSY | .STA_INDX | .STA_INDY => .STA
  | .STX_ZP | .STX_ZPY | .STX_ABS => .STX
  | .STY_ZP | .STY_ZPX | .STY_ABS => .STY
  | .TSX => .TSX
  | .TXS => .TXS
  | .PHA => .PHA
  | .PLA => .PLA
  | .PLP => .PLP
  | .PHP => .PHP
  | .AND_IM | .AND_ZP | .AND_ZPX | .AND_ABS | .AND_ABSX | .AND_ABSY | .AND_INDX
  | .AND_INDY => .AND
  | .ORA_IM | .ORA_ZP | .ORA_ZPX | .ORA_ABS | .ORA_ABSX | .ORA_ABSY | .ORA_INDX
  | .ORA_INDY => .ORA
  | .EOR_IM | .EOR_ZP | .EOR_ZPX | .EOR_ABS | .EOR_ABSX | .EOR_ABSY | .EOR_INDX
  | .EOR_INDY => .EOR
  | .BIT_ZP | .BIT_ABS => .BIT
  | .TAX => .TAX
  | .TAY => .TAY
  | .TXA => .TXA
  | .TYA => .TYA
  | .INX => .INX
  | .INY => .INY
  | .DEX => .DEX
  | .DEY => .DEY
  | .INC_ZP | .INC_ZPX | .INC_ABS | .INC_ABSX => .INC
  | .DEC_ZP | .DEC_ZPX | .DEC_ABS | .DEC_ABSX => .DEC
  | .ADC_IM | .ADC_ZP | .ADC_ZPX | .ADC_ABS | .ADC_ABSX | .ADC_ABSY | .ADC_INDX
  | .ADC_INDY => .ADC
  | .SBC_IM | .SBC_ZP | .SBC_ZPX | .SBC_ABS | .SBC_ABSX | .SBC_ABSY | .SBC_INDX
  | .SBC_INDY => .SBC
  | .CMP_IM | .CMP_ZP | .CMP_ZPX | .CMP_ABS | .CMP_ABSX | .CMP_ABSY | .CMP_INDX
  | .CMP_INDY => .CMP
  | .CPX_IM | .CPX_ZP | .CPX_ABS => .CPX
  | .CPY_IM | .CPY_ZP | .CPY_ABS => .CPY
  | .ASL | .ASL_ZP | .ASL_ZPX | .ASL_ABS | .ASL_ABSX => .ASL
  | .LSR | .LSR_ZP | .LSR_ZPX | .LSR_ABS | .LSR_ABSX => .LSR
  | .ROL | .ROL_ZP | .ROL_ZPX | .ROL_ABS | .ROL_ABSX => .ROL
  | .ROR | .ROR_ZP | .ROR_ZPX | .ROR_ABS | .ROR_ABSX => .ROR
  | .BRK => .BRK
  | .RTI => .RTI
  | .BCC => .BCC
  | .BCS => .BCS
  | .BEQ => .BEQ
  | .BMI => .BMI
  | .BNE => .BNE
  | .BPL => .BPL
  | .BVC => .BVC
  | .BVS => .BVS
  | .CLC => .CLC
  | .CLD => .CLD
  | .CLI => .CLI
  | .CLV => .CLV
  | .SEC => .SEC
  | .SED => .SED
  | .SEI => .SEI

/-- The documented addressing mode of an opcode name. -/
def Opcode.mode : Opcode → Mode
  | .LDA_IM | .LDX_IM | .LDY_IM | .AND_IM | .ORA_IM | .EOR_IM | .ADC_IM | .SBC_IM
  | .CMP_IM | .CPX_IM | .CPY_IM => .immediate
  | .LDA_ZP | .LDX_ZP | .LDY_ZP | .STA_ZP | .STX_ZP | .STY_ZP | .AND_ZP | .ORA_ZP
  | .EOR_ZP | .BIT_ZP | .INC_ZP | .DEC_ZP | .ADC_ZP | .SBC_ZP | .CMP_ZP | .CPX_ZP
  | .CPY_ZP | .ASL_ZP | .LSR_ZP | .ROL_ZP | .ROR_ZP => .zeroPage
  | .LDA_ZPX | .LDY_ZPX | .STA_ZPX | .STY_ZPX | .AND_ZPX | .ORA_ZPX | .EOR_ZPX
  | .INC_ZPX | .DEC_ZPX | .ADC_ZPX | .SBC_ZPX | .CMP_ZPX | .ASL_ZPX | .LSR_ZPX
  | .ROL_ZPX | .ROR_ZPX => .zeroPageX
  | .LDA_ABS | .LDX_ABS | .LDY_ABS | .JSR | .JMP_ABS | .STA_ABS | .STX_ABS | .STY_ABS
  | .AND_ABS | .ORA_ABS | .EOR_ABS | .BIT_ABS | .INC_ABS | .DEC_ABS | .ADC_ABS
  | .SBC_ABS | .CMP_ABS | .CPX_ABS | .CPY_ABS | .ASL_ABS | .LSR_ABS | .ROL_ABS
  | .ROR_ABS => .absolute
  | .LDA_ABSX | .LDY_ABSX | .STA_ABSX | .AND_ABSX | .ORA_ABSX | .EOR_ABSX | .INC_ABSX
  | .DEC_ABSX | .ADC_ABSX | .SBC_ABSX | .CMP_ABSX | .ASL_ABSX | .LSR_ABSX | .ROL_ABSX
  | .ROR_ABSX => .absoluteX
  | .LDA_ABSY | .LDX_ABSY | .STA_ABSY | .AND_ABSY | .ORA_ABSY | .EOR_ABSY | .ADC_ABSY
  | .SBC_ABSY | .CMP_ABSY => .absoluteY
  | .LDA_INDX | .STA_INDX | .AND_INDX | .ORA_INDX | .EOR_INDX | .ADC_INDX | .SBC_INDX
  | .CMP_INDX => .indexedIndirect
  | .LDA_INDY | .STA_INDY | .AND_INDY | .ORA_INDY | .EOR_INDY | .ADC_INDY | .SBC_INDY
  | .CMP_INDY => .indirectIndexed
  | .LDX_ZPY | .STX_ZPY => .zeroPageY
  | .NOP | .RTS | .TSX | .TXS | .PHA | .PLA | .PLP | .PHP | .TAX | .TAY | .TXA | .TYA
  | .INX | .INY | .DEX | .DEY | .BRK | .RTI | .CLC | .CLD | .CLI | .CLV | .SEC | .SED
  | .SEI => .implied
  | .JMP_IND => .indirect
  | .ASL | .LSR | .ROL | .ROR => .accumulator
  | .BCC | .BCS | .BEQ | .BMI | .BNE | .BPL | .BVC | .BVS => .relative

/-- The names of `AppleCpu.h` are the rows of the opcode matrix. -/
theorem decode_code (o : Opcode) :
    (Mos6502.decode o.code).map (fun i => (i.mnemonic, i.mode)) =
      some (o.mnemonic, o.mode) := by
  rw [Mos6502.decode, ByteTable.lookup_eq_findKey, Option.map_map]
  cases o <;> rfl

/-- The arms of the switch agree with the documented mnemonics. -/
theorem acExecute_refines (order : EvalOrder) (o : Opcode) (hD : c.PS.D = false)
    (hU : c.PS.Unused = true) (hp : PointerInPage bus o.mode c s) :
    Matches bus
      (fun r r' => r'.2 = r.2.view ∧ (o ≠ .PLP → o ≠ .RTI → r.2.hidden = c.hidden))
      ((acExecute order o).run c)
      ((Mos6502.execute (order == .leftFirst) o.mnemonic o.mode).run c.view) s := by
  by_cases hpulls : o = .PLP ∨ o = .RTI
  · rcases hpulls with rfl | rfl
    · exact (matches_PLP _ _).mono fun r r' h => ⟨h, fun hne => absurd rfl hne⟩
    · exact (matches_RTI _ _).mono fun r r' h => ⟨h, fun _ hne => absurd rfl hne⟩
  have hrefines : Refines bus (acExecute order o)
      (Mos6502.execute (order == .leftFirst) o.mnemonic o.mode) c s := by
    cases o
    case PLP | RTI => simp at hpulls
    case LDA_IM => exact refines_LDA loads_immediate
    case LDA_ZP | LDA_ZPX | LDA_ABS | LDA_ABSX | LDA_ABSY | LDA_INDX | LDA_INDY =>
      exact refines_LDA (Addresses.loads (by constructor) hp)
    case LDX_IM => exact refines_LDX loads_immediate
    case LDX_ZP | LDX_ZPY | LDX_ABS | LDX_ABSY =>
      exact refines_LDX (Addresses.loads (by constructor) hp)
    case LDY_IM => exact refines_LDY loads_immediate
    case LDY_ZP | LDY_ZPX | LDY_ABS | LDY_ABSX =>
      exact refines_LDY (Addresses.loads (by constructor) hp)
    case AND_IM => exact refines_AND loads_immediate
    case AND_ZP | AND_ZPX | AND_ABS | AND_ABSX | AND_ABSY | AND_INDX | AND_INDY =>
      exact refines_AND (Addresses.loads (by constructor) hp)
    case ORA_IM => exact refines_ORA loads_immediate
    case ORA_ZP | ORA_ZPX | ORA_ABS | ORA_ABSX | ORA_ABSY | ORA_INDX | ORA_INDY =>
      exact refines_ORA (Addresses.loads (by constructor) hp)
    case EOR_IM => exact refines_EOR loads_immediate
    case EOR_ZP | EOR_ZPX | EOR_ABS | EOR_ABSX | EOR_ABSY | EOR_INDX | EOR_INDY =>
      exact refines_EOR (Addresses.loads (by constructor) hp)
    case ADC_IM => exact refines_ADC loads_immediate hD
    case ADC_ZP | ADC_ZPX | ADC_ABS | ADC_ABSX | ADC_ABSY | ADC_INDX | ADC_INDY =>
      exact refines_ADC (Addresses.loads (by constructor) hp) hD
    case SBC_IM => exact refines_SBC loads_immediate hD
    case SBC_ZP | SBC_ZPX | SBC_ABS | SBC_ABSX | SBC_ABSY | SBC_INDX | SBC_INDY =>
      exact refines_SBC (Addresses.loads (by constructor) hp) hD
    case CMP_IM => exact refines_CMP loads_immediate
    case CMP_ZP | CMP_ZPX | CMP_ABS | CMP_ABSX | CMP_ABSY | CMP_INDX | CMP_INDY =>
      exact refines_CMP (Addresses.loads (by constructor) hp)
    case CPX_IM => exact refines_CPX loads_immediate
    case CPX_ZP | CPX_ABS => exact refines_CPX (Addresses.loads (by constructor) hp)
    case CPY_IM => exact refines_CPY loads_immediate
    case CPY_ZP | CPY_ABS => exact refines_CPY (Addresses.loads (by constructor) hp)
    case BIT_ZP | BIT_ABS => exact refines_BIT (Addresses.loads (by constructor) hp)
    case STA_ZP | STA_ZPX | STA_ABS | STA_ABSX | STA_ABSY | STA_INDX =>
      exact refines_STA (by constructor) hp
    case STX_ZP | STX_ZPY | STX_ABS => exact refines_STX (by constructor) hp
    case STY_ZP | STY_ZPX | STY_ABS => exact refines_STY (by constructor) hp
    case STA_INDY => exact refines_STA_INDY hp
    case INC_ZP | INC_ZPX | INC_ABS | INC_ABSX => exact refines_INC (by constructor) hp
    case DEC_ZP | DEC_ZPX | DEC_ABS | DEC_ABSX => exact refines_DEC (by constructor) hp
    case ASL_ZP | ASL_ZPX | ASL_ABS | ASL_ABSX => exact refines_ASL (by constructor) hp
    case LSR_ZP | LSR_ZPX | LSR_ABS | LSR_ABSX => exact refines_LSR (by constructor) hp
    case ROL_ZP | ROL_ZPX | ROL_ABS | ROL_ABSX => exact refines_ROL (by constructor) hp
    case ROR_ZP | ROR_ZPX | ROR_ABS | ROR_ABSX => exact refines_ROR (by constructor) hp
    case ASL => exact refines_shiftingA shifts_ASL
    case LSR => exact refines_shiftingA shifts_LSR
    case ROL => exact refines_shiftingA shifts_ROL
    case ROR => exact refines_shiftingA shifts_ROR
    case BCC | BCS | BEQ | BMI | BNE | BPL | BVC | BVS =>
      refine refines_branch fun c' h => ?_
      simp [Cpu.view, h]
    case JSR => exact refines_JSR _
    case JMP_ABS => exact refines_JMP_ABS _
    case JMP_IND => exact refines_JMP_IND _ hp
    case RTS => exact refines_RTS _ _
    case PHP => exact refines_PHP _ _ hU
    case BRK => exact refines_BRK order _ hD hU
    case PHA | PLA =>
      simp [Refines, acExecute, Opcode.mnemonic, Mos6502.stack_eq, setA,
        Mos6502.State.lda, Mos6502.State.nz, Cpu.view, Cpu.hidden, beq_eq_decide]
    case TAX | TAY | TXA | TYA | TSX | TXS | INX | INY | DEX | DEY =>
      simp [Refines, acExecute, Opcode.mnemonic, setA, setX, setY, setSP,
        setPS, zeroNegative, Mos6502.State.lda, Mos6502.State.ldx, Mos6502.State.ldy,
        Mos6502.State.nz, Cpu.view, Cpu.hidden, beq_eq_decide]
    case NOP | CLC | CLD | CLI | CLV | SEC | SED | SEI =>
      simp [Refines, acExecute, Opcode.mnemonic, setPS, Cpu.view,
        Cpu.hidden]
  exact hrefines.mono fun r r' h => ⟨h.1, fun _ _ => h.2⟩

/-! ### One iteration of the loop -/

/-- A documented opcode selects an arm of the switch, of the documented mnemonic and
mode. -/
theorem ofByte_of_decode {b : BYTE} {ins : Mos6502.Instr}
    (h : Mos6502.decode b = some ins) :
    ∃ o, Opcode.ofByte b = some o ∧ ins.mnemonic = o.mnemonic ∧ ins.mode = o.mode := by
  have hall : ∀ row ∈ Mos6502.table,
      (ByteTable.findKey Opcode.code row.1.toNat Opcode.all).isSome := by
    decide +kernel
  have hfind := h
  rw [Mos6502.decode, ByteTable.lookup_eq_findKey, Option.map_eq_some_iff] at hfind
  obtain ⟨row, hrow, -⟩ := hfind
  obtain ⟨hmem, rfl⟩ := ByteTable.findKey_mem hrow
  have hcode := hall row hmem
  rw [← ByteTable.find?_eq_findKey] at hcode
  obtain ⟨o, ho⟩ := Option.isSome_iff_exists.mp hcode
  have hdecode := decode_code o
  rw [Opcode.code_of_ofByte ho, h, Option.map_some, Option.some.injEq, Prod.mk.injEq] at hdecode
  exact ⟨o, ho, hdecode.1, hdecode.2⟩

/-- One iteration of the loop of `ac_Run` is one instruction of the documented processor:
on every bus and from every state, with decimal mode off and status bit 5 set, and for
every documented opcode whose pointer stays inside its page. -/
theorem acStep_refines_mos6502 (bus : Bus WORD BYTE σ) (order : EvalOrder) (c : Cpu) (s : σ)
    (ins : Mos6502.Instr) (hdoc : Mos6502.decode (bus.read c.PC s).1 = some ins)
    (hD : c.PS.D = false) (hU : c.PS.Unused = true)
    (hp : PointerInPage bus ins.mode { c with PC := c.PC + 1 } (bus.read c.PC s).2) :
    let o := ((acStep order).run c).exec bus s
    let d := ((Mos6502.step (order == .leftFirst)).run c.view).exec bus s
    d.val = (some ins, o.val.2.view) ∧ o.state = d.state ∧ o.accesses = d.accesses ∧
      (ins.mnemonic ≠ .PLP → ins.mnemonic ≠ .RTI → o.val.2.hidden = c.hidden) := by
  obtain ⟨o, ho, hmnemonic, hmode⟩ := ofByte_of_decode hdoc
  rw [hmode] at hp
  have harm : Matches bus _ ((acExecute order o).run { c with PC := c.PC + 1 }) _ _ :=
    acExecute_refines order o hD hU hp
  have hstep : Matches bus
      (fun r r' => r' = (some ins, r.2.view) ∧
        (ins.mnemonic ≠ .PLP → ins.mnemonic ≠ .RTI → r.2.hidden = c.hidden))
      ((acStep order).run c) ((Mos6502.step (order == .leftFirst)).run c.view) s := by
    have hpc : c.view.pc = c.PC := rfl
    simp only [acStep, Mos6502.step, StateT.run_bind, acFetch_run, Mos6502.fetch_run, hpc,
      read_bind, ret_bind, matches_read, ho, hdoc, Mos6502.tick_run, note_bind,
      matches_note_right]
    rw [hmnemonic, hmode]
    rw [← bind_ret ((acExecute order o).run _)]
    refine harm.bind ?_
    rintro ⟨u, c'⟩ ⟨u', s'⟩ t ⟨hview, hhid⟩
    obtain rfl : s' = c'.view := hview
    simp only [StateT.run_pure, pure_eq, matches_ret, true_and]
    exact fun hPLP hRTI => hhid (fun e => hPLP (e ▸ rfl)) fun e => hRTI (e ▸ rfl)
  exact ⟨hstep.val.1, hstep.state, hstep.accesses, hstep.val.2⟩

/-- `ADC ($10),Y` at the end of the address space, with the operand behind a page
crossing. -/
theorem acStep_refines_adc_indY :
    let memory : WORD → BYTE := fun a =>
      if a = 0xFFFF then 0x71 else if a = 0x0000 then 0x10 else
      if a = 0x0010 then 0xF0 else if a = 0x0011 then 0x20 else 0x7F
    let c : Cpu := ⟨0x01, 0x00, 0x20, 0xFF, 0xFFFF, .ofByte 0x20⟩
    let o := ((acStep .leftFirst).run c).exec Bus.flat memory
    let d := ((Mos6502.step true).run c.view).exec Bus.flat memory
    d.val = (some ⟨.ADC, .indirectIndexed, 5⟩, o.val.2.view) ∧ o.state = d.state ∧
      o.accesses = d.accesses ∧
      (Mnemonic.ADC ≠ .PLP → Mnemonic.ADC ≠ .RTI → o.val.2.hidden = c.hidden) :=
  acStep_refines_mos6502 Bus.flat .leftFirst _ _ ⟨.ADC, .indirectIndexed, 5⟩
    rfl rfl rfl (by unfold PointerInPage; decide)

end

end B2OS
