import B2OS.Apple2.Run

/-!
# What the Arms of the Switch Charge and Keep

The charge of an instruction is spread over the helpers and the arms of `ac_Run`, as
updates through a pointer to the budget variable. This module adds them up: every path of
an arm charges the same, `Opcode.charge`. Most charges of the source are written
`*cycle--`, which moves the pointer and leaves the budget alone, so that almost two thirds
of the opcodes charge nothing at all.

The same walk through the helpers shows which arms leave the stack pointer alone: all but
those of `Opcode.usesStack`.

## Main results

* `acExecute_steady`: an arm that does not use the stack emits its charges, and keeps the
  stack pointer and the unused status bit.
* `acExecute_emits`: every path of an arm emits the charges of its opcode.
* `acExecute_plain`: an arm that does not use the stack charges `Opcode.charge` and keeps
  the stack pointer.
* `acExecute_charges`: every path of an arm charges `Opcode.charge`.
-/

namespace B2OS

open BusProg

/-- What an arm takes from the budget variable, on every path through it. Only
`*cycle -= n` and the `cycle--` of an arm itself charge; `*cycle--` does not. -/
def Opcode.charge : Opcode → ℕ
  | .NOP | .JSR | .TSX | .TXS | .PLA | .TAX | .TAY | .TXA | .TYA | .INX | .INY | .DEX
  | .DEY | .INC_ZP | .INC_ZPX | .DEC_ZP | .DEC_ZPX | .CLC | .CLD | .CLI | .CLV | .SEC
  | .SED | .SEI => 1
  | .LDA_ABS | .LDX_ABS | .LDY_ABS | .JMP_ABS | .RTS | .STA_ABS | .STA_ABSX
  | .STA_ABSY | .STX_ABS | .STY_ABS | .AND_ABS | .ORA_ABS | .EOR_ABS | .BIT_ABS
  | .ADC_ABS | .SBC_ABS | .CMP_ABS | .CPX_ABS | .CPY_ABS | .ASL_ABS | .LSR_ABS
  | .LSR_ABSX | .ROL_ABS | .ROL_ABSX | .ROR_ABS | .ROR_ABSX => 2
  | .STA_INDY | .INC_ABS | .INC_ABSX | .DEC_ABS | .DEC_ABSX => 3
  | .JMP_IND => 4
  | .RTI => 5
  | _ => 0

/-- The charge of the byte at the program counter; the default arm charges nothing. -/
def chargeOf (inst : BYTE) : ℕ := (Opcode.ofByte inst).elim 0 Opcode.charge

/-- Every path of a computation takes `n` from the budget variable. -/
def Charges {γ : Type} (p : AcM γ) (n : ℕ) : Prop :=
  ∀ c, (p.run c).Costs Charge.onBudget n

/-- A computation that charges `n` on every path and leaves the stack pointer alone. -/
def Plain {γ : Type} (p : AcM γ) (n : ℕ) : Prop :=
  ∀ c, (p.run c).Costs Charge.onBudget n ∧ (p.run c).Always fun r => r.2.SP = c.SP

theorem Plain.charges {γ : Type} {p : AcM γ} {n : ℕ} (h : Plain p n) : Charges p n :=
  fun c => (h c).1

/-! ### The charges of an arm -/

/-- What an arm emits, on every path through it, as the charges stand in the source. The
pointer read of `(zp,X)` is charged after `*cycle--`, one word below the budget variable. -/
def Opcode.charges : Opcode → List Charge
  | .NOP | .JSR | .TSX | .TXS | .PLA | .TAX | .TAY | .TXA | .TYA | .INX | .INY | .DEX
  | .DEY | .INC_ZP | .INC_ZPX | .DEC_ZP | .DEC_ZPX | .CLC | .CLD | .CLI | .CLV | .SEC
  | .SED | .SEI => [⟨0, 1⟩]
  | .LDA_ABS | .LDX_ABS | .LDY_ABS | .JMP_ABS | .RTS | .STA_ABS | .STA_ABSX
  | .STA_ABSY | .STX_ABS | .STY_ABS | .AND_ABS | .ORA_ABS | .EOR_ABS | .BIT_ABS
  | .ADC_ABS | .SBC_ABS | .CMP_ABS | .CPX_ABS | .CPY_ABS | .ASL_ABS | .LSR_ABS
  | .LSR_ABSX | .ROL_ABS | .ROL_ABSX | .ROR_ABS | .ROR_ABSX => [⟨0, 2⟩]
  | .LDA_INDX | .STA_INDX | .AND_INDX | .ORA_INDX | .EOR_INDX | .ADC_INDX | .SBC_INDX
  | .CMP_INDX => [⟨-1, 2⟩]
  | .STA_INDY | .INC_ABS | .INC_ABSX | .DEC_ABS | .DEC_ABSX => [⟨0, 2⟩, ⟨0, 1⟩]
  | .JMP_IND => [⟨0, 2⟩, ⟨0, 2⟩]
  | .RTI => [⟨0, 5⟩]
  | _ => []

/-- The charge of an opcode is what its charges take from the budget variable. -/
theorem Opcode.charged_charges (o : Opcode) : charged o.charges = o.charge := by
  cases o <;> rfl

/-- Every path of a computation emits the charges `l` and leaves the stack pointer and the
unused status bit alone. -/
def Steady {γ : Type} (p : AcM γ) (l : List Charge) : Prop :=
  ∀ c, (p.run c).Emits l ∧
    (p.run c).Always fun r => r.2.SP = c.SP ∧ r.2.PS.Unused = c.PS.Unused

theorem Steady.plain {γ : Type} {p : AcM γ} {l : List Charge} (h : Steady p l) :
    Plain p (charged l) :=
  fun c => ⟨(h c).1.costs Charge.onBudget, (h c).2.mono fun _ hr => hr.1⟩

theorem Steady.bind {γ δ : Type} {p : AcM γ} {f : γ → AcM δ} {l l' : List Charge}
    (hp : Steady p l) (hf : ∀ v, Steady (f v) l') : Steady (p >>= f) (l ++ l') := by
  intro c
  rw [StateT.run_bind]
  refine ⟨(hp c).1.bind fun r => (hf r.1 r.2).1, (hp c).2.bind fun r hr => ?_⟩
  have hrest := (hf r.1 r.2).2
  rwa [hr.1, hr.2] at hrest

/-- What follows without a charge leaves the charges. -/
theorem Steady.bind_free {γ δ : Type} {p : AcM γ} {f : γ → AcM δ} {l : List Charge}
    (hp : Steady p l) (hf : ∀ v, Steady (f v) []) : Steady (p >>= f) l := by
  have h := hp.bind hf
  rwa [List.append_nil] at h

/-! ### Addressing modes -/

theorem steady_acFetch : Steady (acFetch 0) [] := by
  intro c
  simp

theorem steady_acAddrModeZP : Steady (acAddrModeZP 0) [] := by
  intro c
  simp [acAddrModeZP]

theorem steady_acAddrModeZPX : Steady (acAddrModeZPX 0) [] := by
  intro c
  simp [acAddrModeZPX]

theorem steady_acAddrModeZPY : Steady (acAddrModeZPY 0) [] := by
  intro c
  simp [acAddrModeZPY]

theorem steady_acAddrModeABS : Steady (acAddrModeABS 0) [⟨0, 2⟩] := by
  intro c
  simp [acAddrModeABS]

theorem steady_acAddrModeABSX : Steady (acAddrModeABSX 0) [] := by
  intro c
  simp [acAddrModeABSX]

theorem steady_acAddrModeABSXNoPage : Steady (acAddrModeABSXNoPage 0) [⟨0, 2⟩] := by
  intro c
  simp [acAddrModeABSXNoPage]

theorem steady_acAddrModeABSY : Steady (acAddrModeABSY 0) [] := by
  intro c
  simp [acAddrModeABSY]

theorem steady_acAddrModeABSYNoPage : Steady (acAddrModeABSYNoPage 0) [⟨0, 2⟩] := by
  intro c
  simp [acAddrModeABSYNoPage]

/-- The two cycles of the pointer read are charged one word below the budget variable. -/
theorem steady_acAddrModeINDX : Steady (acAddrModeINDX 0) [⟨-1, 2⟩] := by
  intro c
  simp [acAddrModeINDX, starPostDec]

theorem steady_acAddrModeINDY : Steady (acAddrModeINDY 0) [] := by
  intro c
  simp [acAddrModeINDY]

/-! ### Operations on the registers -/

section Operations

variable (v : BYTE)

@[simp] theorem steady_loadA : Steady (loadA v) [] := by
  intro c
  simp [loadA, setA]

@[simp] theorem steady_loadX : Steady (loadX v) [] := by
  intro c
  simp [loadX, setX]

@[simp] theorem steady_loadY : Steady (loadY v) [] := by
  intro c
  simp [loadY, setY]

@[simp] theorem steady_andA : Steady (andA v) [] := by
  intro c
  simpa [andA] using steady_loadA _ c

@[simp] theorem steady_oraA : Steady (oraA v) [] := by
  intro c
  simpa [oraA] using steady_loadA _ c

@[simp] theorem steady_eorA : Steady (eorA v) [] := by
  intro c
  simpa [eorA] using steady_loadA _ c

theorem steady_compareFlags (r : BYTE) : Steady (compareFlags r v) [] := by
  intro c
  simp [compareFlags, setPS]

@[simp] theorem steady_acExecuteCMP : Steady (acExecuteCMP v) [] := by
  intro c
  simpa [acExecuteCMP] using steady_compareFlags _ _ c

@[simp] theorem steady_acExecuteCPX : Steady (acExecuteCPX v) [] := by
  intro c
  simpa [acExecuteCPX] using steady_compareFlags _ _ c

@[simp] theorem steady_acExecuteCPY : Steady (acExecuteCPY v) [] := by
  intro c
  simpa [acExecuteCPY] using steady_compareFlags _ _ c

@[simp] theorem steady_bitTest : Steady (bitTest v) [] := by
  intro c
  simp [bitTest, setPS]

@[simp] theorem steady_acExecuteADC : Steady (acExecuteADC v) [] := by
  intro c
  simp [acExecuteADC, setA, setPS, acSetCarryFlag, acSetOverflow]

@[simp] theorem steady_acExecuteSBC : Steady (acExecuteSBC v) [] :=
  steady_acExecuteADC _

theorem steady_acExecuteASL : Steady (acExecuteASL v 0) [] := by
  intro c
  simp [acExecuteASL, setPS]

theorem steady_acExecuteLSR : Steady (acExecuteLSR v 0) [] := by
  intro c
  simp [acExecuteLSR, setPS]

theorem steady_acExecuteROL : Steady (acExecuteROL v 0) [] := by
  intro c
  simp [acExecuteROL, setPS]

theorem steady_acExecuteROR : Steady (acExecuteROR v 0) [] := by
  intro c
  simp [acExecuteROR, setPS]

theorem steady_acExecuteBRANCH (flag condition : Bool) :
    Steady (acExecuteBRANCH flag condition 0) [] := by
  intro c
  by_cases h : flag = condition <;> simp [acExecuteBRANCH, h, setPC]

end Operations

/-! ### The switch -/

section Families

variable {l : List Charge} {mode : CyclePtr → AcM WORD}

theorem steady_acReadByte (addr : WORD) : Steady (acReadByte addr 0) [] := by
  intro c
  simp

theorem steady_acWriteByte (v : BYTE) (addr : WORD) : Steady (acWriteByte v addr 0) [] := by
  intro c
  simp

theorem steady_reading {op : BYTE → AcM Unit} (h : Steady (mode 0) l)
    (hop : ∀ v, Steady (op v) []) : Steady (operand mode >>= op) l :=
  (h.bind_free steady_acReadByte).bind_free hop

theorem steady_storeAt {reg : Cpu → BYTE} (h : Steady (mode 0) l) :
    Steady (storeAt mode reg) l := by
  refine h.bind_free fun addr c => ?_
  simp

theorem steady_stepAt {step : BYTE → BYTE} (h : Steady (mode 0) l) :
    Steady (stepAt mode step) (l ++ [⟨0, 1⟩]) := by
  refine h.bind fun addr c => ?_
  simp

theorem steady_shiftAt {op : BYTE → CyclePtr → AcM BYTE} (h : Steady (mode 0) l)
    (hop : ∀ v, Steady (op v 0) []) : Steady (shiftAt mode op) l :=
  h.bind_free fun addr => (steady_acReadByte addr).bind_free fun v =>
    (hop v).bind_free fun v' => steady_acWriteByte v' addr

end Families

/-- The instructions that push, pull or load the stack pointer. -/
def Opcode.usesStack : Opcode → Bool
  | .PHA | .PLA | .PHP | .PLP | .JSR | .RTS | .BRK | .RTI | .TXS => true
  | _ => false

/-- An arm that does not use the stack emits its opcode's charges, and keeps the stack
pointer and the unused status bit. -/
theorem acExecute_steady (order : EvalOrder) (o : Opcode) (h : o.usesStack = false) :
    Steady (acExecute order o) o.charges := by
  cases o
  case PHA | PLA | PHP | PLP | JSR | RTS | BRK | RTI | TXS => cases h
  case LDA_IM | LDX_IM | LDY_IM | AND_IM | ORA_IM | EOR_IM | ADC_IM | SBC_IM | CMP_IM |
    CPX_IM | CPY_IM =>
    exact steady_acFetch.bind_free fun v => by simp
  case LDA_ZP | LDX_ZP | LDY_ZP | AND_ZP | ORA_ZP | EOR_ZP | BIT_ZP | ADC_ZP | SBC_ZP |
    CMP_ZP | CPX_ZP | CPY_ZP =>
    exact steady_reading steady_acAddrModeZP fun v => by simp
  case LDA_ZPX | LDY_ZPX | AND_ZPX | ORA_ZPX | EOR_ZPX | ADC_ZPX | SBC_ZPX | CMP_ZPX =>
    exact steady_reading steady_acAddrModeZPX fun v => by simp
  case LDX_ZPY =>
    exact steady_reading steady_acAddrModeZPY fun v => by simp
  case LDA_ABS | LDX_ABS | LDY_ABS | AND_ABS | ORA_ABS | EOR_ABS | BIT_ABS | ADC_ABS |
    SBC_ABS | CMP_ABS | CPX_ABS | CPY_ABS =>
    exact steady_reading steady_acAddrModeABS fun v => by simp
  case LDA_ABSX | LDY_ABSX | AND_ABSX | ORA_ABSX | EOR_ABSX | ADC_ABSX | SBC_ABSX |
    CMP_ABSX =>
    exact steady_reading steady_acAddrModeABSX fun v => by simp
  case LDA_ABSY | LDX_ABSY | AND_ABSY | ORA_ABSY | EOR_ABSY | ADC_ABSY | SBC_ABSY |
    CMP_ABSY =>
    exact steady_reading steady_acAddrModeABSY fun v => by simp
  case LDA_INDX | AND_INDX | ORA_INDX | EOR_INDX | ADC_INDX | SBC_INDX | CMP_INDX =>
    exact steady_reading steady_acAddrModeINDX fun v => by simp
  case LDA_INDY | AND_INDY | ORA_INDY | EOR_INDY | ADC_INDY | SBC_INDY | CMP_INDY =>
    exact steady_reading steady_acAddrModeINDY fun v => by simp
  case STA_ZP | STX_ZP | STY_ZP => exact steady_storeAt steady_acAddrModeZP
  case STA_ZPX | STY_ZPX => exact steady_storeAt steady_acAddrModeZPX
  case STX_ZPY => exact steady_storeAt steady_acAddrModeZPY
  case STA_ABS | STX_ABS | STY_ABS => exact steady_storeAt steady_acAddrModeABS
  case STA_ABSX => exact steady_storeAt steady_acAddrModeABSXNoPage
  case STA_ABSY => exact steady_storeAt steady_acAddrModeABSYNoPage
  case STA_INDX => exact steady_storeAt steady_acAddrModeINDX
  case INC_ZP | DEC_ZP => exact steady_stepAt steady_acAddrModeZP
  case INC_ZPX | DEC_ZPX => exact steady_stepAt steady_acAddrModeZPX
  case INC_ABS | DEC_ABS => exact steady_stepAt steady_acAddrModeABS
  case INC_ABSX | DEC_ABSX => exact steady_stepAt steady_acAddrModeABSXNoPage
  case ASL_ZP => exact steady_shiftAt steady_acAddrModeZP steady_acExecuteASL
  case ASL_ZPX => exact steady_shiftAt steady_acAddrModeZPX steady_acExecuteASL
  case ASL_ABS => exact steady_shiftAt steady_acAddrModeABS steady_acExecuteASL
  case ASL_ABSX =>
    exact steady_shiftAt steady_acAddrModeABSX steady_acExecuteASL
  case LSR_ZP => exact steady_shiftAt steady_acAddrModeZP steady_acExecuteLSR
  case LSR_ZPX => exact steady_shiftAt steady_acAddrModeZPX steady_acExecuteLSR
  case LSR_ABS => exact steady_shiftAt steady_acAddrModeABS steady_acExecuteLSR
  case LSR_ABSX =>
    exact steady_shiftAt steady_acAddrModeABSXNoPage steady_acExecuteLSR
  case ROL_ZP => exact steady_shiftAt steady_acAddrModeZP steady_acExecuteROL
  case ROL_ZPX => exact steady_shiftAt steady_acAddrModeZPX steady_acExecuteROL
  case ROL_ABS => exact steady_shiftAt steady_acAddrModeABS steady_acExecuteROL
  case ROL_ABSX =>
    exact steady_shiftAt steady_acAddrModeABSXNoPage steady_acExecuteROL
  case ROR_ZP => exact steady_shiftAt steady_acAddrModeZP steady_acExecuteROR
  case ROR_ZPX => exact steady_shiftAt steady_acAddrModeZPX steady_acExecuteROR
  case ROR_ABS => exact steady_shiftAt steady_acAddrModeABS steady_acExecuteROR
  case ROR_ABSX =>
    exact steady_shiftAt steady_acAddrModeABSXNoPage steady_acExecuteROR
  case STA_INDY | JMP_ABS | JMP_IND =>
    intro c
    simp [acExecute, armSTA_INDY, acAddrModeABS, armJMP_IND, Opcode.charges, setPC,
      ]
  case ASL | LSR | ROL | ROR =>
    intro c
    simp [acExecute, acExecuteASL, acExecuteLSR, acExecuteROL, acExecuteROR, Opcode.charges,
      setA, setPS]
  case BCC | BCS | BEQ | BMI | BNE | BPL | BVC | BVS =>
    intro c
    simpa [acExecute, Opcode.charges] using steady_acExecuteBRANCH _ _ c
  case TAX | TAY | TXA | TYA | TSX | INX | INY | DEX | DEY =>
    intro c
    simp [acExecute, Opcode.charges, setA, setX, setY, setPS, zeroNegative]
  case NOP | CLC | CLD | CLI | CLV | SEC | SED | SEI =>
    intro c
    simp [acExecute, Opcode.charges, setPS]

/-- An arm that does not use the stack charges its opcode's charge and keeps the stack
pointer. -/
theorem acExecute_plain (order : EvalOrder) (o : Opcode) (h : o.usesStack = false) :
    Plain (acExecute order o) o.charge :=
  o.charged_charges ▸ (acExecute_steady order o h).plain

/-- Every path of an arm emits its opcode's charges. -/
theorem acExecute_emits (order : EvalOrder) (o : Opcode) (c : Cpu) :
    ((acExecute order o).run c).Emits o.charges := by
  by_cases h : o.usesStack = false
  · exact (acExecute_steady order o h c).1
  cases o <;> simp only [Opcode.usesStack, Bool.true_eq_false, not_true, not_false_eq_true] at h
  case PHA | PLA | PHP | PLP | JSR | RTS | RTI | TXS =>
    simp [acExecute, armPHP, armPLP, armJSR, armRTS, armRTI, Opcode.charges, setA, setPC,
      setSP, setPS]
  case BRK =>
    cases order <;>
      simp [acExecute, armBRK, readVector, Opcode.charges, setPC, setSP, setPS]

/-- Every path of an arm charges its opcode's charge. -/
theorem acExecute_charges (order : EvalOrder) (o : Opcode) :
    Charges (acExecute order o) o.charge :=
  fun c => o.charged_charges ▸ (acExecute_emits order o c).costs Charge.onBudget

end B2OS
