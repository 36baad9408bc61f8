import B2OS.Lib.Budget
import B2OS.Lib.ByteTable
import B2OS.Apple2.Cpu

/-!
# The Instruction Loop of the Emulated 6502

`ac_Run` fetches a byte, switches on it and leaves the loop when its cycle budget is used
up or has wrapped below zero. This module embeds the opcode names of `AppleCpu.h`
(`Opcode`), the arms of the switch (`acExecute`), one iteration of the loop (`acStep`)
and the loop itself (`acRun`).

The arms that read an operand, store a register, or modify a memory cell in place differ
only in the addressing mode and the operation, and are written here through `operand`,
`storeAt`, `stepAt` and `shiftAt`. `BRK` evaluates its two vector reads as operands of
one `|`, whose order C leaves to the compiler: that order is the parameter `EvalOrder`.
-/

universe u

namespace B2OS

/-- The opcode names of `AppleCpu.h`. -/
inductive Opcode
  | LDA_IM | LDA_ZP | LDA_ZPX | LDA_ABS | LDA_ABSX | LDA_ABSY | LDA_INDX | LDA_INDY
  | LDX_IM | LDX_ZP | LDX_ZPY | LDX_ABS | LDX_ABSY
  | LDY_IM | LDY_ZP | LDY_ZPX | LDY_ABS | LDY_ABSX
  | NOP | JSR
  | JMP_ABS | JMP_IND
  | RTS
  | STA_ZP | STA_ZPX | STA_ABS | STA_ABSX | STA_ABSY | STA_INDX | STA_INDY
  | STX_ZP | STX_ZPY | STX_ABS
  | STY_ZP | STY_ZPX | STY_ABS
  | TSX | TXS | PHA | PLA | PLP | PHP
  | AND_IM | AND_ZP | AND_ZPX | AND_ABS | AND_ABSX | AND_ABSY | AND_INDX | AND_INDY
  | ORA_IM | ORA_ZP | ORA_ZPX | ORA_ABS | ORA_ABSX | ORA_ABSY | ORA_INDX | ORA_INDY
  | EOR_IM | EOR_ZP | EOR_ZPX | EOR_ABS | EOR_ABSX | EOR_ABSY | EOR_INDX | EOR_INDY
  | BIT_ZP | BIT_ABS
  | TAX | TAY | TXA | TYA | INX | INY | DEX | DEY
  | INC_ZP | INC_ZPX | INC_ABS | INC_ABSX
  | DEC_ZP | DEC_ZPX | DEC_ABS | DEC_ABSX
  | ADC_IM | ADC_ZP | ADC_ZPX | ADC_ABS | ADC_ABSX | ADC_ABSY | ADC_INDX | ADC_INDY
  | SBC_IM | SBC_ZP | SBC_ZPX | SBC_ABS | SBC_ABSX | SBC_ABSY | SBC_INDX | SBC_INDY
  | CMP_IM | CMP_ZP | CMP_ZPX | CMP_ABS | CMP_ABSX | CMP_ABSY | CMP_INDX | CMP_INDY
  | CPX_IM | CPX_ZP | CPX_ABS
  | CPY_IM | CPY_ZP | CPY_ABS
  | ASL | ASL_ZP | ASL_ZPX | ASL_ABS | ASL_ABSX
  | LSR | LSR_ZP | LSR_ZPX | LSR_ABS | LSR_ABSX
  | ROL | ROL_ZP | ROL_ZPX | ROL_ABS | ROL_ABSX
  | ROR | ROR_ZP | ROR_ZPX | ROR_ABS | ROR_ABSX
  | BRK | RTI | BCC | BCS | BEQ | BMI | BNE | BPL | BVC | BVS | CLC | CLD | CLI | CLV
  | SEC | SED | SEI
deriving DecidableEq, Repr

namespace Opcode

/-- The byte `AppleCpu.h` defines a name as. -/
def code : Opcode → BYTE
  | LDA_IM => 0xA9 | LDA_ZP => 0xA5 | LDA_ZPX => 0xB5 | LDA_ABS => 0xAD
  | LDA_ABSX => 0xBD | LDA_ABSY => 0xB9 | LDA_INDX => 0xA1 | LDA_INDY => 0xB1
  | LDX_IM => 0xA2 | LDX_ZP => 0xA6 | LDX_ZPY => 0xB6 | LDX_ABS => 0xAE
  | LDX_ABSY => 0xBE
  | LDY_IM => 0xA0 | LDY_ZP => 0xA4 | LDY_ZPX => 0xB4 | LDY_ABS => 0xAC
  | LDY_ABSX => 0xBC
  | NOP => 0xEA | JSR => 0x20
  | JMP_ABS => 0x4C | JMP_IND => 0x6C
  | RTS => 0x60
  | STA_ZP => 0x85 | STA_ZPX => 0x95 | STA_ABS => 0x8D | STA_ABSX => 0x9D
  | STA_ABSY => 0x99 | STA_INDX => 0x81 | STA_INDY => 0x91
  | STX_ZP => 0x86 | STX_ZPY => 0x96 | STX_ABS => 0x8E
  | STY_ZP => 0x84 | STY_ZPX => 0x94 | STY_ABS => 0x8C
  | TSX => 0xBA | TXS => 0x9A | PHA => 0x48 | PLA => 0x68 | PLP => 0x28 | PHP => 0x08
  | AND_IM => 0x29 | AND_ZP => 0x25 | AND_ZPX => 0x35 | AND_ABS => 0x2D
  | AND_ABSX => 0x3D | AND_ABSY => 0x39 | AND_INDX => 0x21 | AND_INDY => 0x31
  | ORA_IM => 0x09 | ORA_ZP => 0x05 | ORA_ZPX => 0x15 | ORA_ABS => 0x0D
  | ORA_ABSX => 0x1D | ORA_ABSY => 0x19 | ORA_INDX => 0x01 | ORA_INDY => 0x11
  | EOR_IM => 0x49 | EOR_ZP => 0x45 | EOR_ZPX => 0x55 | EOR_ABS => 0x4D
  | EOR_ABSX => 0x5D | EOR_ABSY => 0x59 | EOR_INDX => 0x41 | EOR_INDY => 0x51
  | BIT_ZP => 0x24 | BIT_ABS => 0x2C
  | TAX => 0xAA | TAY => 0xA8 | TXA => 0x8A | TYA => 0x98 | INX => 0xE8 | INY => 0xC8
  | DEX => 0xCA | DEY => 0x88
  | INC_ZP => 0xE6 | INC_ZPX => 0xF6 | INC_ABS => 0xEE | INC_ABSX => 0xFE
  | DEC_ZP => 0xC6 | DEC_ZPX => 0xD6 | DEC_ABS => 0xCE | DEC_ABSX => 0xDE
  | ADC_IM => 0x69 | ADC_ZP => 0x65 | ADC_ZPX => 0x75 | ADC_ABS => 0x6D
  | ADC_ABSX => 0x7D | ADC_ABSY => 0x79 | ADC_INDX => 0x61 | ADC_INDY => 0x71
  | SBC_IM => 0xE9 | SBC_ZP => 0xE5 | SBC_ZPX => 0xF5 | SBC_ABS => 0xED
  | SBC_ABSX => 0xFD | SBC_ABSY => 0xF9 | SBC_INDX => 0xE1 | SBC_INDY => 0xF1
  | CMP_IM => 0xC9 | CMP_ZP => 0xC5 | CMP_ZPX => 0xD5 | CMP_ABS => 0xCD
  | CMP_ABSX => 0xDD | CMP_ABSY => 0xD9 | CMP_INDX => 0xC1 | CMP_INDY => 0xD1
  | CPX_IM => 0xE0 | CPX_ZP => 0xE4 | CPX_ABS => 0xEC
  | CPY_IM => 0xC0 | CPY_ZP => 0xC4 | CPY_ABS => 0xCC
  | ASL => 0x0A | ASL_ZP => 0x06 | ASL_ZPX => 0x16 | ASL_ABS => 0x0E | ASL_ABSX => 0x1E
  | LSR => 0x4A | LSR_ZP => 0x46 | LSR_ZPX => 0x56 | LSR_ABS => 0x4E | LSR_ABSX => 0x5E
  | ROL => 0x2A | ROL_ZP => 0x26 | ROL_ZPX => 0x36 | ROL_ABS => 0x2E | ROL_ABSX => 0x3E
  | ROR => 0x6A | ROR_ZP => 0x66 | ROR_ZPX => 0x76 | ROR_ABS => 0x6E | ROR_ABSX => 0x7E
  | BRK => 0x00 | RTI => 0x40 | BCC => 0x90 | BCS => 0xB0 | BEQ => 0xF0 | BMI => 0x30
  | BNE => 0xD0 | BPL => 0x10 | BVC => 0x50 | BVS => 0x70 | CLC => 0x18 | CLD => 0xD8
  | CLI => 0x58 | CLV => 0xB8 | SEC => 0x38 | SED => 0xF8 | SEI => 0x78

/-- All names, in the order of `AppleCpu.h`. -/
def all : List Opcode :=
  [
    LDA_IM, LDA_ZP, LDA_ZPX, LDA_ABS, LDA_ABSX, LDA_ABSY, LDA_INDX, LDA_INDY, LDX_IM,
    LDX_ZP, LDX_ZPY, LDX_ABS, LDX_ABSY, LDY_IM, LDY_ZP, LDY_ZPX, LDY_ABS, LDY_ABSX,
    NOP, JSR, JMP_ABS, JMP_IND, RTS, STA_ZP, STA_ZPX, STA_ABS, STA_ABSX, STA_ABSY,
    STA_INDX, STA_INDY, STX_ZP, STX_ZPY, STX_ABS, STY_ZP, STY_ZPX, STY_ABS, TSX, TXS,
    PHA, PLA, PLP, PHP, AND_IM, AND_ZP, AND_ZPX, AND_ABS, AND_ABSX, AND_ABSY, AND_INDX,
    AND_INDY, ORA_IM, ORA_ZP, ORA_ZPX, ORA_ABS, ORA_ABSX, ORA_ABSY, ORA_INDX, ORA_INDY,
    EOR_IM, EOR_ZP, EOR_ZPX, EOR_ABS, EOR_ABSX, EOR_ABSY, EOR_INDX, EOR_INDY, BIT_ZP,
    BIT_ABS, TAX, TAY, TXA, TYA, INX, INY, DEX, DEY, INC_ZP, INC_ZPX, INC_ABS,
    INC_ABSX, DEC_ZP, DEC_ZPX, DEC_ABS, DEC_ABSX, ADC_IM, ADC_ZP, ADC_ZPX, ADC_ABS,
    ADC_ABSX, ADC_ABSY, ADC_INDX, ADC_INDY, SBC_IM, SBC_ZP, SBC_ZPX, SBC_ABS, SBC_ABSX,
    SBC_ABSY, SBC_INDX, SBC_INDY, CMP_IM, CMP_ZP, CMP_ZPX, CMP_ABS, CMP_ABSX, CMP_ABSY,
    CMP_INDX, CMP_INDY, CPX_IM, CPX_ZP, CPX_ABS, CPY_IM, CPY_ZP, CPY_ABS, ASL, ASL_ZP,
    ASL_ZPX, ASL_ABS, ASL_ABSX, LSR, LSR_ZP, LSR_ZPX, LSR_ABS, LSR_ABSX, ROL, ROL_ZP,
    ROL_ZPX, ROL_ABS, ROL_ABSX, ROR, ROR_ZP, ROR_ZPX, ROR_ABS, ROR_ABSX, BRK, RTI, BCC,
    BCS, BEQ, BMI, BNE, BPL, BVC, BVS, CLC, CLD, CLI, CLV, SEC, SED, SEI]

/-- The case of `switch (inst)` that a byte selects; `none` is the default arm. -/
def ofByte (inst : BYTE) : Option Opcode :=
  all.find? fun o => o.code == inst

theorem mem_all (o : Opcode) : o ∈ all := by
  have h : all[o.ctorIdx]? = some o := by cases o <;> rfl
  exact List.mem_of_getElem? h

/-- The case labels are distinct: every byte of the table selects its own arm. -/
theorem ofByte_code (o : Opcode) : ofByte o.code = some o := by
  have h : ∀ o ∈ all, ByteTable.findKey code o.code.toNat all = some o := by decide +kernel
  rw [ofByte, ByteTable.find?_eq_findKey]
  exact h o (mem_all o)

theorem code_of_ofByte {inst : BYTE} {o : Opcode} (h : ofByte inst = some o) :
    o.code = inst := by
  simpa using List.find?_some h

end Opcode

/-- The order in which the operands of `|` are evaluated. -/
inductive EvalOrder
  | leftFirst
  | rightFirst
deriving DecidableEq, Repr

/-! ### What the arms have in common -/

/-- `WORD addr = mode(&cycle); ac_ReadByte(addr, &cycle)`. -/
def operand (mode : CyclePtr → AcM WORD) : AcM BYTE := do
  let addr ← mode 0
  acReadByte addr 0

def loadA (v : BYTE) : AcM Unit := do
  setA v
  acSetZeroNegative v

def loadX (v : BYTE) : AcM Unit := do
  setX v
  acSetZeroNegative v

def loadY (v : BYTE) : AcM Unit := do
  setY v
  acSetZeroNegative v

def andA (v : BYTE) : AcM Unit := do loadA ((← get).A &&& v)
def oraA (v : BYTE) : AcM Unit := do loadA ((← get).A ||| v)
def eorA (v : BYTE) : AcM Unit := do loadA ((← get).A ^^^ v)

/-- The body of the two `BIT` arms. -/
def bitTest (R : BYTE) : AcM Unit := do
  let A := (← get).A
  setPS fun f => { f with
    Z := A &&& R == 0
    N := R &&& FLAG_NEGATIVE != 0
    V := R &&& FLAG_OVERFLOW != 0 }

/-- The zero and negative flags, as the arms of `INX`, `INY`, `DEX` and `DEY` write them
out. -/
def zeroNegative (r : BYTE) : AcM Unit :=
  setPS fun f => { f with
    Z := r == 0
    N := r &&& FLAG_NEGATIVE != 0 }

/-- `WORD addr = mode(&cycle); ac_WriteByte(reg, addr, &cycle)`. -/
def storeAt (mode : CyclePtr → AcM WORD) (reg : Cpu → BYTE) : AcM Unit := do
  let addr ← mode 0
  acWriteByte (reg (← get)) addr 0

/-- The body of the `INC` and `DEC` arms, with `v++` or `v--` for `step`. -/
def stepAt (mode : CyclePtr → AcM WORD) (step : BYTE → BYTE) : AcM Unit := do
  let addr ← mode 0
  let v ← acReadByte addr 0
  let v := step v
  charge 0 1
  acWriteByte v addr 0
  acSetZeroNegative v

/-- The body of the shift arms on a memory cell. -/
def shiftAt (mode : CyclePtr → AcM WORD) (op : BYTE → CyclePtr → AcM BYTE) : AcM Unit := do
  let addr ← mode 0
  let v ← acReadByte addr 0
  let v ← op v 0
  acWriteByte v addr 0

/-! ### The arms with a body of their own -/

/-- `STA (zp),Y` does not go through `ac_addr_mode_INDY`. -/
def armSTA_INDY : AcM Unit := do
  let zp ← acFetch 0
  let addr ← acReadWord (zp.setWidth 16) 0
  let addr := addr + (← get).Y.setWidth 16
  charge 0 1
  acWriteByte (← get).A addr 0

def armJSR : AcM Unit := do
  let lo ← acReadByte (← get).PC 0
  setPC ((← get).PC + 1)
  let address := mkWord lo (← acReadByte (← get).PC 0)
  acPushStackWord (← get).PC 0
  setPC address
  charge 0 1

def armJMP_IND : AcM Unit := do
  let addr ← acFetchWord 0
  let addr ← acReadWord addr 0
  setPC addr

def armRTS : AcM Unit := do
  let addr ← acPopStackWord 0
  setPC (addr + 1)
  charge 0 2

def armPLP : AcM Unit := do
  let b ← acPopStackByte 0
  setPS fun _ => .ofByte (b ||| FLAG_UNUSED)

def armPHP : AcM Unit := do
  let _ps := (← get).PS.toByte ||| FLAG_BREAK
  acPushStackByte _ps 0

/-- `ac_ReadByte(0xFFFE, &cycle) | ac_ReadByte(0xFFFF, &cycle) << 8`. -/
def readVector : EvalOrder → AcM WORD
  | .leftFirst => do
      let lo ← acReadByte 0xFFFE 0
      let hi ← acReadByte 0xFFFF 0
      return mkWord lo hi
  | .rightFirst => do
      let hi ← acReadByte 0xFFFF 0
      let lo ← acReadByte 0xFFFE 0
      return mkWord lo hi

def armBRK (order : EvalOrder) : AcM Unit := do
  setPC ((← get).PC + 1)
  acWriteByte (((← get).PC >>> 8 &&& 0xFF).setWidth 8) (0x100 + (← get).SP.setWidth 16) 0
  setSP (safeDec (← get).SP 1)
  acWriteByte (((← get).PC &&& 0xFF).setWidth 8) (0x100 + (← get).SP.setWidth 16) 0
  setSP (safeDec (← get).SP 1)
  acWriteByte ((← get).PS.toByte ||| FLAG_BREAK) (0x100 + (← get).SP.setWidth 16) 0
  setSP (safeDec (← get).SP 1)
  setPS fun f => { f with I := true }
  setPS fun f => { f with D := false }
  setPC (← readVector order)

def armRTI : AcM Unit := do
  setSP (safeInc (← get).SP 1)
  let b ← acReadByte (0x100 + (← get).SP.setWidth 16) 0
  setPS fun _ => .ofByte b
  setSP (safeInc (← get).SP 1)
  let lo ← acReadByte (0x100 + (← get).SP.setWidth 16) 0
  setPC (lo.setWidth 16)
  setSP (safeInc (← get).SP 1)
  let hi ← acReadByte (0x100 + (← get).SP.setWidth 16) 0
  setPC ((← get).PC ||| hi.setWidth 16 <<< 8)
  charge 0 5

/-! ### The switch and the loop -/

/-- The arms of `switch (inst)`. -/
def acExecute (order : EvalOrder) : Opcode → AcM Unit
  | .LDA_IM => do loadA (← acFetch 0)
  | .LDA_ZP => do loadA (← operand acAddrModeZP)
  | .LDA_ZPX => do loadA (← operand acAddrModeZPX)
  | .LDA_ABS => do loadA (← operand acAddrModeABS)
  | .LDA_ABSX => do loadA (← operand acAddrModeABSX)
  | .LDA_ABSY => do loadA (← operand acAddrModeABSY)
  | .LDA_INDX => do loadA (← operand acAddrModeINDX)
  | .LDA_INDY => do loadA (← operand acAddrModeINDY)
  | .LDX_IM => do loadX (← acFetch 0)
  | .LDX_ZP => do loadX (← operand acAddrModeZP)
  | .LDX_ZPY => do loadX (← operand acAddrModeZPY)
  | .LDX_ABS => do loadX (← operand acAddrModeABS)
  | .LDX_ABSY => do loadX (← operand acAddrModeABSY)
  | .LDY_IM => do loadY (← acFetch 0)
  | .LDY_ZP => do loadY (← operand acAddrModeZP)
  | .LDY_ZPX => do loadY (← operand acAddrModeZPX)
  | .LDY_ABS => do loadY (← operand acAddrModeABS)
  | .LDY_ABSX => do loadY (← operand acAddrModeABSX)
  | .NOP => charge 0 1
  | .JSR => armJSR
  | .JMP_ABS => do setPC (← acAddrModeABS 0)
  | .JMP_IND => armJMP_IND
  | .RTS => armRTS
  | .STA_ZP => storeAt acAddrModeZP Cpu.A
  | .STA_ZPX => storeAt acAddrModeZPX Cpu.A
  | .STA_ABS => storeAt acAddrModeABS Cpu.A
  | .STA_ABSX => storeAt acAddrModeABSXNoPage Cpu.A
  | .STA_ABSY => storeAt acAddrModeABSYNoPage Cpu.A
  | .STA_INDX => storeAt acAddrModeINDX Cpu.A
  | .STA_INDY => armSTA_INDY
  | .STX_ZP => storeAt acAddrModeZP Cpu.X
  | .STX_ZPY => storeAt acAddrModeZPY Cpu.X
  | .STX_ABS => storeAt acAddrModeABS Cpu.X
  | .STY_ZP => storeAt acAddrModeZP Cpu.Y
  | .STY_ZPX => storeAt acAddrModeZPX Cpu.Y
  | .STY_ABS => storeAt acAddrModeABS Cpu.Y
  | .TSX => do
      setX (← get).SP
      charge 0 1
      acSetZeroNegative (← get).X
  | .TXS => do
      setSP (← get).X
      charge 0 1
  | .PHA => do acPushStackByte (← get).A 0
  | .PLA => do
      setA (← acPopStackByte 0)
      charge 0 1
      acSetZeroNegative (← get).A
  | .PLP => armPLP
  | .PHP => armPHP
  | .AND_IM => do andA (← acFetch 0)
  | .AND_ZP => do andA (← operand acAddrModeZP)
  | .AND_ZPX => do andA (← operand acAddrModeZPX)
  | .AND_ABS => do andA (← operand acAddrModeABS)
  | .AND_ABSX => do andA (← operand acAddrModeABSX)
  | .AND_ABSY => do andA (← operand acAddrModeABSY)
  | .AND_INDX => do andA (← operand acAddrModeINDX)
  | .AND_INDY => do andA (← operand acAddrModeINDY)
  | .ORA_IM => do oraA (← acFetch 0)
  | .ORA_ZP => do oraA (← operand acAddrModeZP)
  | .ORA_ZPX => do oraA (← operand acAddrModeZPX)
  | .ORA_ABS => do oraA (← operand acAddrModeABS)
  | .ORA_ABSX => do oraA (← operand acAddrModeABSX)
  | .ORA_ABSY => do oraA (← operand acAddrModeABSY)
  | .ORA_INDX => do oraA (← operand acAddrModeINDX)
  | .ORA_INDY => do oraA (← operand acAddrModeINDY)
  | .EOR_IM => do eorA (← acFetch 0)
  | .EOR_ZP => do eorA (← operand acAddrModeZP)
  | .EOR_ZPX => do eorA (← operand acAddrModeZPX)
  | .EOR_ABS => do eorA (← operand acAddrModeABS)
  | .EOR_ABSX => do eorA (← operand acAddrModeABSX)
  | .EOR_ABSY => do eorA (← operand acAddrModeABSY)
  | .EOR_INDX => do eorA (← operand acAddrModeINDX)
  | .EOR_INDY => do eorA (← operand acAddrModeINDY)
  | .BIT_ZP => do bitTest (← operand acAddrModeZP)
  | .BIT_ABS => do bitTest (← operand acAddrModeABS)
  | .TAX => do
      setX (← get).A
      charge 0 1
      acSetZeroNegative (← get).X
  | .TAY => do
      setY (← get).A
      charge 0 1
      acSetZeroNegative (← get).Y
  | .TXA => do
      setA (← get).X
      charge 0 1
      acSetZeroNegative (← get).A
  | .TYA => do
      setA (← get).Y
      charge 0 1
      acSetZeroNegative (← get).A
  | .INX => do
      setX ((← get).X + 1)
      charge 0 1
      zeroNegative (← get).X
  | .INY => do
      setY ((← get).Y + 1)
      charge 0 1
      zeroNegative (← get).Y
  | .DEX => do
      setX ((← get).X - 1)
      charge 0 1
      zeroNegative (← get).X
  | .DEY => do
      setY ((← get).Y - 1)
      charge 0 1
      zeroNegative (← get).Y
  | .INC_ZP => stepAt acAddrModeZP (· + 1)
  | .INC_ZPX => stepAt acAddrModeZPX (· + 1)
  | .INC_ABS => stepAt acAddrModeABS (· + 1)
  | .INC_ABSX => stepAt acAddrModeABSXNoPage (· + 1)
  | .DEC_ZP => stepAt acAddrModeZP (· - 1)
  | .DEC_ZPX => stepAt acAddrModeZPX (· - 1)
  | .DEC_ABS => stepAt acAddrModeABS (· - 1)
  | .DEC_ABSX => stepAt acAddrModeABSXNoPage (· - 1)
  | .ADC_IM => do acExecuteADC (← acFetch 0)
  | .ADC_ZP => do acExecuteADC (← operand acAddrModeZP)
  | .ADC_ZPX => do acExecuteADC (← operand acAddrModeZPX)
  | .ADC_ABS => do acExecuteADC (← operand acAddrModeABS)
  | .ADC_ABSX => do acExecuteADC (← operand acAddrModeABSX)
  | .ADC_ABSY => do acExecuteADC (← operand acAddrModeABSY)
  | .ADC_INDX => do acExecuteADC (← operand acAddrModeINDX)
  | .ADC_INDY => do acExecuteADC (← operand acAddrModeINDY)
  | .SBC_IM => do acExecuteSBC (← acFetch 0)
  | .SBC_ZP => do acExecuteSBC (← operand acAddrModeZP)
  | .SBC_ZPX => do acExecuteSBC (← operand acAddrModeZPX)
  | .SBC_ABS => do acExecuteSBC (← operand acAddrModeABS)
  | .SBC_ABSX => do acExecuteSBC (← operand acAddrModeABSX)
  | .SBC_ABSY => do acExecuteSBC (← operand acAddrModeABSY)
  | .SBC_INDX => do acExecuteSBC (← operand acAddrModeINDX)
  | .SBC_INDY => do acExecuteSBC (← operand acAddrModeINDY)
  | .CMP_IM => do acExecuteCMP (← acFetch 0)
  | .CMP_ZP => do acExecuteCMP (← operand acAddrModeZP)
  | .CMP_ZPX => do acExecuteCMP (← operand acAddrModeZPX)
  | .CMP_ABS => do acExecuteCMP (← operand acAddrModeABS)
  | .CMP_ABSX => do acExecuteCMP (← operand acAddrModeABSX)
  | .CMP_ABSY => do acExecuteCMP (← operand acAddrModeABSY)
  | .CMP_INDX => do acExecuteCMP (← operand acAddrModeINDX)
  | .CMP_INDY => do acExecuteCMP (← operand acAddrModeINDY)
  | .CPX_IM => do acExecuteCPX (← acFetch 0)
  | .CPX_ZP => do acExecuteCPX (← operand acAddrModeZP)
  | .CPX_ABS => do acExecuteCPX (← operand acAddrModeABS)
  | .CPY_IM => do acExecuteCPY (← acFetch 0)
  | .CPY_ZP => do acExecuteCPY (← operand acAddrModeZP)
  | .CPY_ABS => do acExecuteCPY (← operand acAddrModeABS)
  | .ASL => do setA (← acExecuteASL (← get).A 0)
  | .ASL_ZP => shiftAt acAddrModeZP acExecuteASL
  | .ASL_ZPX => shiftAt acAddrModeZPX acExecuteASL
  | .ASL_ABS => shiftAt acAddrModeABS acExecuteASL
  | .ASL_ABSX => shiftAt acAddrModeABSX acExecuteASL
  | .LSR => do setA (← acExecuteLSR (← get).A 0)
  | .LSR_ZP => shiftAt acAddrModeZP acExecuteLSR
  | .LSR_ZPX => shiftAt acAddrModeZPX acExecuteLSR
  | .LSR_ABS => shiftAt acAddrModeABS acExecuteLSR
  | .LSR_ABSX => shiftAt acAddrModeABSXNoPage acExecuteLSR
  | .ROL => do setA (← acExecuteROL (← get).A 0)
  | .ROL_ZP => shiftAt acAddrModeZP acExecuteROL
  | .ROL_ZPX => shiftAt acAddrModeZPX acExecuteROL
  | .ROL_ABS => shiftAt acAddrModeABS acExecuteROL
  | .ROL_ABSX => shiftAt acAddrModeABSXNoPage acExecuteROL
  | .ROR => do setA (← acExecuteROR (← get).A 0)
  | .ROR_ZP => shiftAt acAddrModeZP acExecuteROR
  | .ROR_ZPX => shiftAt acAddrModeZPX acExecuteROR
  | .ROR_ABS => shiftAt acAddrModeABS acExecuteROR
  | .ROR_ABSX => shiftAt acAddrModeABSXNoPage acExecuteROR
  | .BRK => armBRK order
  | .RTI => armRTI
  | .BCC => do acExecuteBRANCH (← get).PS.C false 0
  | .BCS => do acExecuteBRANCH (← get).PS.C true 0
  | .BEQ => do acExecuteBRANCH (← get).PS.Z true 0
  | .BMI => do acExecuteBRANCH (← get).PS.N true 0
  | .BNE => do acExecuteBRANCH (← get).PS.Z false 0
  | .BPL => do acExecuteBRANCH (← get).PS.N false 0
  | .BVC => do acExecuteBRANCH (← get).PS.V false 0
  | .BVS => do acExecuteBRANCH (← get).PS.V true 0
  | .CLC => do
      setPS fun f => { f with C := false }
      charge 0 1
  | .CLD => do
      setPS fun f => { f with D := false }
      charge 0 1
  | .CLI => do
      setPS fun f => { f with I := false }
      charge 0 1
  | .CLV => do
      setPS fun f => { f with V := false }
      charge 0 1
  | .SEC => do
      setPS fun f => { f with C := true }
      charge 0 1
  | .SED => do
      setPS fun f => { f with D := true }
      charge 0 1
  | .SEI => do
      setPS fun f => { f with I := true }
      charge 0 1

/-- The body of the loop of `ac_Run`. -/
def acStep (order : EvalOrder) : AcM Unit := do
  let inst ← acFetch 0
  match Opcode.ofByte inst with
  | some o => acExecute order o
  | none => pure ()

/-- An iteration is the fetch of the opcode and then its arm. -/
theorem exec_acStep {σ : Type u} {bus : Bus WORD BYTE σ} (order : EvalOrder) {c : Cpu}
    {s : σ} {o : Opcode} (h : Opcode.ofByte (bus.read c.PC s).1 = some o) :
    ((acStep order).run c).exec bus s =
      let arm := ((acExecute order o).run { c with PC := c.PC + 1 }).exec bus
        (bus.read c.PC s).2
      { arm with accesses := .read c.PC (bus.read c.PC s).1 :: arm.accesses } := by
  simp [acStep, h]

/-- What a charge takes from the budget variable of `ac_Run`: its amount when its pointer
is the address that `ac_Run` passed. -/
def Charge.onBudget (e : Charge) : ℕ := if e.ptr = 0 then e.amount else 0

/-- The total that a list of charges takes from the budget variable. -/
def charged (l : List Charge) : ℕ := (l.map Charge.onBudget).sum

/-- `ac_Run` on a budget, for at most `fuel` iterations; `none` when the loop has not
ended by then. The source returns the final budget as an `int`; the number of iterations
is kept beside it. -/
def acRun {σ : Type u} (bus : Bus WORD BYTE σ) (order : EvalOrder) :
    ℕ → ULONG → Cpu → σ → Option (LoopExit 32 (Cpu × σ))
  | 0, _, _, _ => none
  | fuel + 1, cycle, c, s =>
      if cycle > 0 then
        let prevcycle := cycle
        let o := ((acStep order).run c).exec bus s
        let cycle := cycle - BitVec.ofNat 32 (charged o.notes)
        if prevcycle < cycle then some ⟨1, cycle, o.val.2, o.state⟩
        else (acRun bus order fuel cycle o.val.2 o.state).map fun r =>
          { r with iterations := r.iterations + 1 }
      else some ⟨0, cycle, c, s⟩

/-! ### The guest program without a budget -/

section FreeRun

variable {σ : Type u} (bus : Bus WORD BYTE σ) (order : EvalOrder)

/-- One iteration of the loop of `ac_Run`, without the budget. -/
def acIteration (x : Cpu × σ) : Cpu × σ :=
  let o := ((acStep order).run x.1).exec bus x.2
  (o.val.2, o.state)

/-- The byte that the next iteration fetches. -/
def nextOpcode (x : Cpu × σ) : BYTE := (bus.read x.1.PC x.2).1

/-- The byte that iteration `i` of the guest program fetches, when no budget stops it. -/
def opcodeAt (c : Cpu) (s : σ) (i : ℕ) : BYTE :=
  nextOpcode bus ((acIteration bus order)^[i] (c, s))

end FreeRun

end B2OS
