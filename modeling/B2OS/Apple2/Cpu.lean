import B2OS.Lib.BusProg
import Mathlib.Control.Lawful
import Mathlib.Tactic.IntervalCases

/-!
# The Registers and Helpers of the Emulated 6502

This module embeds the register file of `Apple2/AppleCpu.c` and the helper functions that
`ac_Run` is written with: the flag setters, the memory and stack accesses, the addressing
modes and the `ac_Execute_*` group.

The functions run in `AcM`, a state monad over the registers on top of `BusProg`, so every
`mem_ReadByte` and `mem_WriteByte` is a node of a program tree and memory stays abstract.

## The cycle pointer

Most helpers take `unsigned long* cycle`, the address of the budget variable of `ac_Run`.
The model keeps such a pointer as its distance in words from that variable, so `&cycle`
is `0`, and every update `*p -= n` is a note `⟨p, n⟩` of the program tree. The source
charges one cycle by `*cycle--`, which C parses as `*(cycle--)`: the pointer moves down
one word and the word it pointed to is read and thrown away. `starPostDec` is that
expression. It charges nothing, and the moved pointer is what the rest of the helper
uses.
-/

namespace B2OS

/-- `unsigned char`. -/
abbrev BYTE := BitVec 8

/-- `unsigned short`. -/
abbrev WORD := BitVec 16

/-- `unsigned long` of the i386 target. -/
abbrev ULONG := BitVec 32

def STACK_ADDRESS : WORD := 0x0100
def STACK_POS : BYTE := 0xFD
def PC_START : WORD := 0xFFFC

def FLAG_CARRY : BYTE := 0b00000001
def FLAG_INTERRUPT_DISABLE : BYTE := 0b00000100
def FLAG_DECIMAL_MODE : BYTE := 0b00001000
def FLAG_BREAK : BYTE := 0b00010000
def FLAG_UNUSED : BYTE := 0b00100000
def FLAG_OVERFLOW : BYTE := 0b01000000
def FLAG_NEGATIVE : BYTE := 0b10000000

/-- The bit-field view of the status register, least significant bit first. -/
structure StatusFlags where
  C : Bool
  Z : Bool
  I : Bool
  D : Bool
  B : Bool
  Unused : Bool
  V : Bool
  N : Bool
deriving DecidableEq, Repr

namespace StatusFlags

/-- The byte view of the union, from its bit fields. -/
def toByte (f : StatusFlags) : BYTE :=
  BitVec.ofBoolListBE [f.N, f.V, f.Unused, f.B, f.D, f.I, f.Z, f.C]

/-- The bit fields of the union, from its byte view. -/
def ofByte (b : BYTE) : StatusFlags where
  C := b.getLsbD 0
  Z := b.getLsbD 1
  I := b.getLsbD 2
  D := b.getLsbD 3
  B := b.getLsbD 4
  Unused := b.getLsbD 5
  V := b.getLsbD 6
  N := b.getLsbD 7

/-- The two views are views of one byte. -/
@[simp] theorem ofByte_toByte (f : StatusFlags) : ofByte f.toByte = f := by
  obtain ⟨c, z, i, d, b, u, v, n⟩ := f
  simp [ofByte, toByte, BitVec.ofBoolListBE, BitVec.getElem_cons]

/-- Setting the break bit of the byte view is setting the break field. -/
theorem toByte_or_break (f : StatusFlags) :
    f.toByte ||| FLAG_BREAK = { f with B := true }.toByte := by
  obtain ⟨c, z, i, d, b, u, v, n⟩ := f
  refine BitVec.eq_of_getLsbD_eq fun k hk => ?_
  simp only [toByte, BitVec.ofBoolListBE, BitVec.getLsbD_or]
  interval_cases k <;> simp [FLAG_BREAK, BitVec.getElem_cons]

end StatusFlags

/-- The registers, globals of `AppleCpu.c`. -/
structure Cpu where
  A : BYTE
  X : BYTE
  Y : BYTE
  SP : BYTE
  PC : WORD
  PS : StatusFlags
deriving DecidableEq, Repr

/-- The registers as the program is loaded. -/
def Cpu.initial : Cpu := ⟨0, 0, 0, 0, 0, .ofByte 0⟩

/-- A pointer to `unsigned long`, as its distance in words from the budget variable whose
address `ac_Run` passes. -/
abbrev CyclePtr := ℤ

/-- An update `*ptr -= amount` through a cycle pointer. -/
structure Charge where
  ptr : CyclePtr
  amount : ℕ
deriving DecidableEq, Repr

/-- A computation of the emulator: registers, bus accesses and charges. -/
abbrev AcM := StateT Cpu (BusProg WORD BYTE Charge)

/-- `*cycle--`, that is `*(cycle--)`: the value read is discarded, the pointer moves. -/
def starPostDec (cycle : CyclePtr) : CyclePtr := cycle - 1

/-- `*cycle -= n`. -/
def charge (cycle : CyclePtr) (n : ℕ) : AcM Unit :=
  fun c => .note ⟨cycle, n⟩ (.ret ((), c))

/-! ### Memory, as the processor sees it -/

def memReadByte (addr : WORD) : AcM BYTE :=
  fun c => .read addr fun b => .ret (b, c)

def memWriteByte (addr : WORD) (value : BYTE) : AcM Unit :=
  fun c => .write addr value (.ret ((), c))

/-- `(hi << 8) | lo`. -/
def mkWord (lo hi : BYTE) : WORD :=
  (hi.setWidth 16 <<< 8) ||| lo.setWidth 16

def memReadWord (addr : WORD) : AcM WORD := do
  let m0 ← memReadByte addr
  let m1 ← memReadByte (addr + 1)
  return mkWord m0 m1

def memWriteWord (value : WORD) (addr : WORD) : AcM Unit := do
  memWriteByte addr ((value >>> 8).setWidth 8)
  memWriteByte (addr + 1) ((value &&& 0xFF).setWidth 8)

/-! ### Registers and flags -/

def setA (v : BYTE) : AcM Unit := modify fun c => { c with A := v }
def setX (v : BYTE) : AcM Unit := modify fun c => { c with X := v }
def setY (v : BYTE) : AcM Unit := modify fun c => { c with Y := v }
def setSP (v : BYTE) : AcM Unit := modify fun c => { c with SP := v }
def setPC (v : WORD) : AcM Unit := modify fun c => { c with PC := v }
def setPS (f : StatusFlags → StatusFlags) : AcM Unit :=
  modify fun c => { c with PS := f c.PS }

/-- `PC++`, as an expression. -/
def postIncPC : AcM WORD := do
  let pc := (← get).PC
  setPC (pc + 1)
  return pc

def acSetZeroNegative (Register : BYTE) : AcM Unit :=
  setPS fun f => { f with
    Z := Register == 0
    N := decide (Register &&& FLAG_NEGATIVE > 0) }

def acSetCarryFlag (value : WORD) : AcM Unit :=
  setPS fun f => { f with C := decide (value &&& 0xFF00 > 0) }

def acSetOverflow (oldv0 v0 v1 : BYTE) : AcM Unit :=
  let sign0 := (oldv0 ^^^ v1) &&& FLAG_NEGATIVE == 0
  let sign1 := (v0 ^^^ v1) &&& FLAG_NEGATIVE != 0
  setPS fun f => { f with V := sign0 && sign1 }

def safeDec (src value : BYTE) : BYTE := src - value
def safeInc (src value : BYTE) : BYTE := src + value

/-! ### Fetching, reading and writing -/

def acFetch (cycle : CyclePtr) : AcM BYTE := do
  let c ← memReadByte (← postIncPC)
  let _cycle := starPostDec cycle
  return c

def acFetchWord (cycle : CyclePtr) : AcM WORD := do
  let c0 ← memReadByte (← postIncPC)
  let c1 ← memReadByte (← postIncPC)
  let w := mkWord c0 c1
  charge cycle 2
  return w

def acReadByte (addr : WORD) (cycle : CyclePtr) : AcM BYTE := do
  let c ← memReadByte addr
  let _cycle := starPostDec cycle
  return c

def acReadWord (addr : WORD) (cycle : CyclePtr) : AcM WORD := do
  let c ← memReadWord addr
  charge cycle 2
  return c

def acWriteByte (value : BYTE) (addr : WORD) (cycle : CyclePtr) : AcM Unit := do
  memWriteByte addr value
  let _cycle := starPostDec cycle

def acWriteWord (value : WORD) (addr : WORD) (cycle : CyclePtr) : AcM Unit := do
  memWriteWord value addr
  charge cycle 2

/-! ### The stack -/

def acGetStackAddress : AcM WORD := do
  return STACK_ADDRESS + (← get).SP.setWidth 16

def acPushStackByte (value : BYTE) (cycle : CyclePtr) : AcM Unit := do
  acWriteByte value (← acGetStackAddress) cycle
  setSP (safeDec (← get).SP 1)
  let _cycle := starPostDec cycle

def acPushStackWord (value : WORD) (cycle : CyclePtr) : AcM Unit := do
  acWriteByte ((value >>> 8).setWidth 8) (← acGetStackAddress) cycle
  setSP (safeDec (← get).SP 1)
  acWriteByte ((value &&& 0xFF).setWidth 8) (← acGetStackAddress) cycle
  setSP (safeDec (← get).SP 1)

def acPopStackByte (cycle : CyclePtr) : AcM BYTE := do
  setSP (safeInc (← get).SP 1)
  let popbyte ← acReadByte (← acGetStackAddress) cycle
  let _cycle := starPostDec cycle
  return popbyte

def acPopStackWord (cycle : CyclePtr) : AcM WORD := do
  setSP (safeInc (← get).SP 1)
  let lo ← acReadByte (← acGetStackAddress) cycle
  setSP (safeInc (← get).SP 1)
  let hi ← acReadByte (← acGetStackAddress) cycle
  let popWord := mkWord lo hi
  let _cycle := starPostDec cycle
  return popWord

/-! ### Addressing modes -/

def acAddrModeZP (cycle : CyclePtr) : AcM WORD := do
  let address ← acFetch cycle
  return address.setWidth 16

def acAddrModeZPX (cycle : CyclePtr) : AcM WORD := do
  let address := (← acFetch cycle) + (← get).X
  let _cycle := starPostDec cycle
  return address.setWidth 16

def acAddrModeZPY (cycle : CyclePtr) : AcM WORD := do
  let address := (← acFetch cycle) + (← get).Y
  let _cycle := starPostDec cycle
  return address.setWidth 16

def acAddrModeABS (cycle : CyclePtr) : AcM WORD :=
  acFetchWord cycle

def acAddrModeABSX (cycle : CyclePtr) : AcM WORD := do
  let lo ← acFetch cycle
  let hi ← acFetch cycle
  let X := (← get).X
  let t : WORD := lo.setWidth 16 + X.setWidth 16
  let _cycle := if t &&& 0xFF00 ≠ 0 then starPostDec cycle else cycle
  return mkWord lo hi + X.setWidth 16

def acAddrModeABSXNoPage (cycle : CyclePtr) : AcM WORD := do
  let address ← acFetchWord cycle
  let address := address + (← get).X.setWidth 16
  let _cycle := starPostDec cycle
  return address

def acAddrModeABSY (cycle : CyclePtr) : AcM WORD := do
  let lo ← acFetch cycle
  let hi ← acFetch cycle
  let Y := (← get).Y
  let t : WORD := lo.setWidth 16 + Y.setWidth 16
  let _cycle := if t > 0xFF then starPostDec cycle else cycle
  return mkWord lo hi + Y.setWidth 16

def acAddrModeABSYNoPage (cycle : CyclePtr) : AcM WORD := do
  let address ← acFetchWord cycle
  let address := address + (← get).Y.setWidth 16
  let _cycle := starPostDec cycle
  return address

/-- `*cycle--` stands before the pointer is handed to `ac_ReadWord` here, so its charge
lands one word below the budget variable. -/
def acAddrModeINDX (cycle : CyclePtr) : AcM WORD := do
  let t ← acFetch cycle
  let inx := t + (← get).X
  let cycle := starPostDec cycle
  acReadWord (inx.setWidth 16) cycle

def acAddrModeINDY (cycle : CyclePtr) : AcM WORD := do
  let addr ← acFetch cycle
  let lo ← acReadByte (addr.setWidth 16) cycle
  let hi ← acReadByte (addr.setWidth 16 + 1) cycle
  let Y := (← get).Y
  let t : WORD := lo.setWidth 16 + Y.setWidth 16
  let _cycle := if t > 0xFF then starPostDec cycle else cycle
  return mkWord lo hi + Y.setWidth 16

/-! ### Arithmetic and shifts -/

def acExecuteADC (v : BYTE) : AcM Unit := do
  let c ← get
  let oldA := c.A
  let Result : WORD := c.A.setWidth 16 + v.setWidth 16 + (if c.PS.C then 1 else 0)
  let Result : WORD :=
    if c.PS.D then
      Result + (((Result + 0x66) ^^^ c.A.setWidth 16 ^^^ v.setWidth 16) >>> 3 &&& 0x22) * 3
    else Result
  let A := (Result &&& 0xFF).setWidth 8
  setA A
  acSetZeroNegative A
  acSetCarryFlag Result
  acSetOverflow oldA A v

def acExecuteSBC (v : BYTE) : AcM Unit :=
  acExecuteADC (~~~v)

/-- The body that `ac_Execute_CMP`, `ac_Execute_CPX` and `ac_Execute_CPY` write out for
their register `r`. -/
def compareFlags (r v : BYTE) : AcM Unit :=
  setPS fun f => { f with
    Z := r - v == 0
    N := (r - v) &&& FLAG_NEGATIVE != 0
    C := decide (r ≥ v) }

def acExecuteCMP (v : BYTE) : AcM Unit := do compareFlags (← get).A v
def acExecuteCPX (v : BYTE) : AcM Unit := do compareFlags (← get).X v
def acExecuteCPY (v : BYTE) : AcM Unit := do compareFlags (← get).Y v

/-- The shifts take `BYTE *v`; the model takes the old value and returns the new one. -/
def acExecuteASL (v : BYTE) (cycle : CyclePtr) : AcM BYTE := do
  setPS fun f => { f with C := decide (v &&& FLAG_NEGATIVE > 0) }
  let v := v <<< 1
  let _cycle := starPostDec cycle
  acSetZeroNegative v
  return v

def acExecuteLSR (v : BYTE) (cycle : CyclePtr) : AcM BYTE := do
  setPS fun f => { f with C := v &&& 0x01 != 0 }
  let v := v >>> 1
  let _cycle := starPostDec cycle
  acSetZeroNegative v
  return v

def acExecuteROL (v : BYTE) (cycle : CyclePtr) : AcM BYTE := do
  let oldcarry : BYTE := if (← get).PS.C then 0x01 else 0x00
  setPS fun f => { f with C := decide (v &&& FLAG_NEGATIVE > 0) }
  let v := v <<< 1
  let v := v ||| oldcarry
  let _cycle := starPostDec cycle
  acSetZeroNegative v
  return v

def acExecuteROR (v : BYTE) (cycle : CyclePtr) : AcM BYTE := do
  let oldcarry := decide (v &&& FLAG_CARRY > 0)
  let v := v >>> 1
  let v := v ||| (if (← get).PS.C then FLAG_NEGATIVE else 0)
  let _cycle := starPostDec cycle
  setPS fun f => { f with C := oldcarry }
  acSetZeroNegative v
  return v

def acExecuteBRANCH (v condition : Bool) (cycle : CyclePtr) : AcM Unit := do
  let offset ← acFetch cycle
  if v = condition then
    let lo := (← get).PC &&& 0x00FF
    let t : WORD := lo + offset.signExtend 16
    let cycle := if t > 0xFF then starPostDec cycle else cycle
    setPC ((← get).PC + offset.signExtend 16)
    let _cycle := starPostDec cycle

/-! ### Reset -/

/-- The registers as `ac_Reset_0` leaves them. -/
def acReset0 : Cpu where
  A := 0
  X := 0
  Y := 0
  PS := .ofByte 0
  SP := STACK_POS
  PC := PC_START

def acReset : AcM Unit := do
  modify fun c => { c with
    A := 0
    X := 0
    Y := 0
    PS := .ofByte ((c.PS.toByte ||| FLAG_INTERRUPT_DISABLE) &&& ~~~FLAG_DECIMAL_MODE)
    SP := STACK_POS }
  let lo ← memReadByte 0xFFFC
  let hi ← memReadByte 0xFFFD
  setPC (mkWord lo hi)

/-! ### What the helpers do

The program tree of each helper, started on given registers. -/

section Run

open BusProg

variable (cycle : CyclePtr) (c : Cpu) (addr : WORD) (v : BYTE)

@[simp] theorem memReadByte_run :
    (memReadByte addr).run c = .read addr fun b => .ret (b, c) := rfl

@[simp] theorem memWriteByte_run :
    (memWriteByte addr v).run c = .write addr v (.ret ((), c)) := rfl

@[simp] theorem charge_run (n : ℕ) :
    (charge cycle n).run c = .note ⟨cycle, n⟩ (.ret ((), c)) := rfl

@[simp] theorem acFetch_run : (acFetch cycle).run c =
    .read c.PC fun b => .ret (b, { c with PC := c.PC + 1 }) := by
  simp [acFetch, postIncPC, setPC]

@[simp] theorem acFetchWord_run : (acFetchWord cycle).run c =
    .read c.PC fun b0 => .read (c.PC + 1) fun b1 =>
      .note ⟨cycle, 2⟩ (.ret (mkWord b0 b1, { c with PC := c.PC + 1 + 1 })) := by
  simp [acFetchWord, postIncPC, setPC]

@[simp] theorem acReadByte_run :
    (acReadByte addr cycle).run c = .read addr fun b => .ret (b, c) := by
  simp [acReadByte]

@[simp] theorem acReadWord_run : (acReadWord addr cycle).run c =
    .read addr fun b0 => .read (addr + 1) fun b1 =>
      .note ⟨cycle, 2⟩ (.ret (mkWord b0 b1, c)) := by
  simp [acReadWord, memReadWord]

@[simp] theorem acWriteByte_run :
    (acWriteByte v addr cycle).run c = .write addr v (.ret ((), c)) := by
  simp [acWriteByte]

@[simp] theorem acPushStackByte_run : (acPushStackByte v cycle).run c =
    .write (STACK_ADDRESS + c.SP.setWidth 16) v (.ret ((), { c with SP := c.SP - 1 })) := by
  simp [acPushStackByte, acGetStackAddress, setSP, safeDec]

@[simp] theorem acPushStackWord_run (w : WORD) : (acPushStackWord w cycle).run c =
    .write (STACK_ADDRESS + c.SP.setWidth 16) ((w >>> 8).setWidth 8)
      (.write (STACK_ADDRESS + (c.SP - 1).setWidth 16) ((w &&& 0xFF).setWidth 8)
        (.ret ((), { c with SP := c.SP - 1 - 1 }))) := by
  simp [acPushStackWord, acGetStackAddress, setSP, safeDec]

@[simp] theorem acPopStackByte_run : (acPopStackByte cycle).run c =
    .read (STACK_ADDRESS + (c.SP + 1).setWidth 16) fun b =>
      .ret (b, { c with SP := c.SP + 1 }) := by
  simp [acPopStackByte, acGetStackAddress, setSP, safeInc]

@[simp] theorem acPopStackWord_run : (acPopStackWord cycle).run c =
    .read (STACK_ADDRESS + (c.SP + 1).setWidth 16) fun lo =>
      .read (STACK_ADDRESS + (c.SP + 1 + 1).setWidth 16) fun hi =>
        .ret (mkWord lo hi, { c with SP := c.SP + 1 + 1 }) := by
  simp [acPopStackWord, acGetStackAddress, setSP, safeInc]

@[simp] theorem acSetZeroNegative_run : (acSetZeroNegative v).run c =
    .ret ((), { c with PS := { c.PS with
      Z := v == 0
      N := decide (v &&& FLAG_NEGATIVE > 0) } }) := by
  simp [acSetZeroNegative, setPS]

end Run

end B2OS
