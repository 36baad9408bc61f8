import B2OS.Apple2.Cpu

/-!
# The Documented 6502

This module states what the MOS 6502 does, from its programming manual and not from the
emulator: registers and the six flags that instructions observe, the opcode matrix with
base cycle counts (`table`), the addressing modes (`effective`) and the effect of each
mnemonic (`execute`). Arithmetic is stated through the numbers that bytes stand for, as
the manual does. It is what the emulator is compared with.

A step performs its operand and data accesses as a `BusProg` and emits its cycles as
notes: the base count of the opcode, one more when an indexed read crosses a page, one
more for a taken branch and another when the branch leaves the page.

Not described: decimal mode, the accesses whose value the processor throws away, and
opcodes outside the matrix. Pointers wrap inside their page, as on the NMOS part.
-/

namespace B2OS

namespace Mos6502

/-- The registers, and the flags that instructions observe. -/
structure State where
  a : BYTE
  x : BYTE
  y : BYTE
  sp : BYTE
  pc : WORD
  n : Bool
  v : Bool
  d : Bool
  i : Bool
  z : Bool
  c : Bool
deriving DecidableEq, Repr

inductive Mode
  | implied | accumulator | immediate | zeroPage | zeroPageX | zeroPageY
  | absolute | absoluteX | absoluteY | indexedIndirect | indirectIndexed
  | indirect | relative
deriving DecidableEq, Repr

inductive Mnemonic
  | ADC | AND | ASL | BCC | BCS | BEQ | BIT | BMI | BNE | BPL | BRK | BVC | BVS | CLC
  | CLD | CLI | CLV | CMP | CPX | CPY | DEC | DEX | DEY | EOR | INC | INX | INY | JMP
  | JSR | LDA | LDX | LDY | LSR | NOP | ORA | PHA | PHP | PLA | PLP | ROL | ROR | RTI
  | RTS | SBC | SEC | SED | SEI | STA | STX | STY | TAX | TAY | TSX | TXA | TXS | TYA
deriving DecidableEq, Repr

/-- An entry of the opcode matrix: what to do, where the operand is, the base cycles. -/
structure Instr where
  mnemonic : Mnemonic
  mode : Mode
  cycles : ℕ
deriving DecidableEq, Repr

/-- The opcode matrix: the 151 documented opcodes. -/
def table : List (BYTE × Instr) :=
  [
    (0x00, ⟨.BRK, .implied, 7⟩), (0x01, ⟨.ORA, .indexedIndirect, 6⟩),
    (0x05, ⟨.ORA, .zeroPage, 3⟩), (0x06, ⟨.ASL, .zeroPage, 5⟩),
    (0x08, ⟨.PHP, .implied, 3⟩), (0x09, ⟨.ORA, .immediate, 2⟩),
    (0x0A, ⟨.ASL, .accumulator, 2⟩), (0x0D, ⟨.ORA, .absolute, 4⟩),
    (0x0E, ⟨.ASL, .absolute, 6⟩), (0x10, ⟨.BPL, .relative, 2⟩),
    (0x11, ⟨.ORA, .indirectIndexed, 5⟩), (0x15, ⟨.ORA, .zeroPageX, 4⟩),
    (0x16, ⟨.ASL, .zeroPageX, 6⟩), (0x18, ⟨.CLC, .implied, 2⟩),
    (0x19, ⟨.ORA, .absoluteY, 4⟩), (0x1D, ⟨.ORA, .absoluteX, 4⟩),
    (0x1E, ⟨.ASL, .absoluteX, 7⟩), (0x20, ⟨.JSR, .absolute, 6⟩),
    (0x21, ⟨.AND, .indexedIndirect, 6⟩), (0x24, ⟨.BIT, .zeroPage, 3⟩),
    (0x25, ⟨.AND, .zeroPage, 3⟩), (0x26, ⟨.ROL, .zeroPage, 5⟩),
    (0x28, ⟨.PLP, .implied, 4⟩), (0x29, ⟨.AND, .immediate, 2⟩),
    (0x2A, ⟨.ROL, .accumulator, 2⟩), (0x2C, ⟨.BIT, .absolute, 4⟩),
    (0x2D, ⟨.AND, .absolute, 4⟩), (0x2E, ⟨.ROL, .absolute, 6⟩),
    (0x30, ⟨.BMI, .relative, 2⟩), (0x31, ⟨.AND, .indirectIndexed, 5⟩),
    (0x35, ⟨.AND, .zeroPageX, 4⟩), (0x36, ⟨.ROL, .zeroPageX, 6⟩),
    (0x38, ⟨.SEC, .implied, 2⟩), (0x39, ⟨.AND, .absoluteY, 4⟩),
    (0x3D, ⟨.AND, .absoluteX, 4⟩), (0x3E, ⟨.ROL, .absoluteX, 7⟩),
    (0x40, ⟨.RTI, .implied, 6⟩), (0x41, ⟨.EOR, .indexedIndirect, 6⟩),
    (0x45, ⟨.EOR, .zeroPage, 3⟩), (0x46, ⟨.LSR, .zeroPage, 5⟩),
    (0x48, ⟨.PHA, .implied, 3⟩), (0x49, ⟨.EOR, .immediate, 2⟩),
    (0x4A, ⟨.LSR, .accumulator, 2⟩), (0x4C, ⟨.JMP, .absolute, 3⟩),
    (0x4D, ⟨.EOR, .absolute, 4⟩), (0x4E, ⟨.LSR, .absolute, 6⟩),
    (0x50, ⟨.BVC, .relative, 2⟩), (0x51, ⟨.EOR, .indirectIndexed, 5⟩),
    (0x55, ⟨.EOR, .zeroPageX, 4⟩), (0x56, ⟨.LSR, .zeroPageX, 6⟩),
    (0x58, ⟨.CLI, .implied, 2⟩), (0x59, ⟨.EOR, .absoluteY, 4⟩),
    (0x5D, ⟨.EOR, .absoluteX, 4⟩), (0x5E, ⟨.LSR, .absoluteX, 7⟩),
    (0x60, ⟨.RTS, .implied, 6⟩), (0x61, ⟨.ADC, .indexedIndirect, 6⟩),
    (0x65, ⟨.ADC, .zeroPage, 3⟩), (0x66, ⟨.ROR, .zeroPage, 5⟩),
    (0x68, ⟨.PLA, .implied, 4⟩), (0x69, ⟨.ADC, .immediate, 2⟩),
    (0x6A, ⟨.ROR, .accumulator, 2⟩), (0x6C, ⟨.JMP, .indirect, 5⟩),
    (0x6D, ⟨.ADC, .absolute, 4⟩), (0x6E, ⟨.ROR, .absolute, 6⟩),
    (0x70, ⟨.BVS, .relative, 2⟩), (0x71, ⟨.ADC, .indirectIndexed, 5⟩),
    (0x75, ⟨.ADC, .zeroPageX, 4⟩), (0x76, ⟨.ROR, .zeroPageX, 6⟩),
    (0x78, ⟨.SEI, .implied, 2⟩), (0x79, ⟨.ADC, .absoluteY, 4⟩),
    (0x7D, ⟨.ADC, .absoluteX, 4⟩), (0x7E, ⟨.ROR, .absoluteX, 7⟩),
    (0x81, ⟨.STA, .indexedIndirect, 6⟩), (0x84, ⟨.STY, .zeroPage, 3⟩),
    (0x85, ⟨.STA, .zeroPage, 3⟩), (0x86, ⟨.STX, .zeroPage, 3⟩),
    (0x88, ⟨.DEY, .implied, 2⟩), (0x8A, ⟨.TXA, .implied, 2⟩),
    (0x8C, ⟨.STY, .absolute, 4⟩), (0x8D, ⟨.STA, .absolute, 4⟩),
    (0x8E, ⟨.STX, .absolute, 4⟩), (0x90, ⟨.BCC, .relative, 2⟩),
    (0x91, ⟨.STA, .indirectIndexed, 6⟩), (0x94, ⟨.STY, .zeroPageX, 4⟩),
    (0x95, ⟨.STA, .zeroPageX, 4⟩), (0x96, ⟨.STX, .zeroPageY, 4⟩),
    (0x98, ⟨.TYA, .implied, 2⟩), (0x99, ⟨.STA, .absoluteY, 5⟩),
    (0x9A, ⟨.TXS, .implied, 2⟩), (0x9D, ⟨.STA, .absoluteX, 5⟩),
    (0xA0, ⟨.LDY, .immediate, 2⟩), (0xA1, ⟨.LDA, .indexedIndirect, 6⟩),
    (0xA2, ⟨.LDX, .immediate, 2⟩), (0xA4, ⟨.LDY, .zeroPage, 3⟩),
    (0xA5, ⟨.LDA, .zeroPage, 3⟩), (0xA6, ⟨.LDX, .zeroPage, 3⟩),
    (0xA8, ⟨.TAY, .implied, 2⟩), (0xA9, ⟨.LDA, .immediate, 2⟩),
    (0xAA, ⟨.TAX, .implied, 2⟩), (0xAC, ⟨.LDY, .absolute, 4⟩),
    (0xAD, ⟨.LDA, .absolute, 4⟩), (0xAE, ⟨.LDX, .absolute, 4⟩),
    (0xB0, ⟨.BCS, .relative, 2⟩), (0xB1, ⟨.LDA, .indirectIndexed, 5⟩),
    (0xB4, ⟨.LDY, .zeroPageX, 4⟩), (0xB5, ⟨.LDA, .zeroPageX, 4⟩),
    (0xB6, ⟨.LDX, .zeroPageY, 4⟩), (0xB8, ⟨.CLV, .implied, 2⟩),
    (0xB9, ⟨.LDA, .absoluteY, 4⟩), (0xBA, ⟨.TSX, .implied, 2⟩),
    (0xBC, ⟨.LDY, .absoluteX, 4⟩), (0xBD, ⟨.LDA, .absoluteX, 4⟩),
    (0xBE, ⟨.LDX, .absoluteY, 4⟩), (0xC0, ⟨.CPY, .immediate, 2⟩),
    (0xC1, ⟨.CMP, .indexedIndirect, 6⟩), (0xC4, ⟨.CPY, .zeroPage, 3⟩),
    (0xC5, ⟨.CMP, .zeroPage, 3⟩), (0xC6, ⟨.DEC, .zeroPage, 5⟩),
    (0xC8, ⟨.INY, .implied, 2⟩), (0xC9, ⟨.CMP, .immediate, 2⟩),
    (0xCA, ⟨.DEX, .implied, 2⟩), (0xCC, ⟨.CPY, .absolute, 4⟩),
    (0xCD, ⟨.CMP, .absolute, 4⟩), (0xCE, ⟨.DEC, .absolute, 6⟩),
    (0xD0, ⟨.BNE, .relative, 2⟩), (0xD1, ⟨.CMP, .indirectIndexed, 5⟩),
    (0xD5, ⟨.CMP, .zeroPageX, 4⟩), (0xD6, ⟨.DEC, .zeroPageX, 6⟩),
    (0xD8, ⟨.CLD, .implied, 2⟩), (0xD9, ⟨.CMP, .absoluteY, 4⟩),
    (0xDD, ⟨.CMP, .absoluteX, 4⟩), (0xDE, ⟨.DEC, .absoluteX, 7⟩),
    (0xE0, ⟨.CPX, .immediate, 2⟩), (0xE1, ⟨.SBC, .indexedIndirect, 6⟩),
    (0xE4, ⟨.CPX, .zeroPage, 3⟩), (0xE5, ⟨.SBC, .zeroPage, 3⟩),
    (0xE6, ⟨.INC, .zeroPage, 5⟩), (0xE8, ⟨.INX, .implied, 2⟩),
    (0xE9, ⟨.SBC, .immediate, 2⟩), (0xEA, ⟨.NOP, .implied, 2⟩),
    (0xEC, ⟨.CPX, .absolute, 4⟩), (0xED, ⟨.SBC, .absolute, 4⟩),
    (0xEE, ⟨.INC, .absolute, 6⟩), (0xF0, ⟨.BEQ, .relative, 2⟩),
    (0xF1, ⟨.SBC, .indirectIndexed, 5⟩), (0xF5, ⟨.SBC, .zeroPageX, 4⟩),
    (0xF6, ⟨.INC, .zeroPageX, 6⟩), (0xF8, ⟨.SED, .implied, 2⟩),
    (0xF9, ⟨.SBC, .absoluteY, 4⟩), (0xFD, ⟨.SBC, .absoluteX, 4⟩),
    (0xFE, ⟨.INC, .absoluteX, 7⟩)]

/-- The documented instruction of an opcode. -/
def decode (op : BYTE) : Option Instr := table.lookup op

/-- A computation of the processor; its notes are cycles. -/
abbrev MosM := StateT State (BusProg WORD BYTE ℕ)

/-! ### Registers and memory -/

def read (addr : WORD) : MosM BYTE :=
  fun s => .read addr fun b => .ret (b, s)

def write (addr : WORD) (v : BYTE) : MosM Unit :=
  fun s => .write addr v (.ret ((), s))

/-- Let `k` cycles pass. -/
def tick (k : ℕ) : MosM Unit :=
  fun s => .note k (.ret ((), s))

/-- The next byte of the instruction stream. -/
def fetch : MosM BYTE := do
  let pc := (← get).pc
  modify fun s => { s with pc := pc + 1 }
  read pc

/-- The zero-page address of a byte. -/
def zp (b : BYTE) : WORD := 0x00#8 ++ b

/-- The stack address of a stack pointer: page one. -/
def stack (sp : BYTE) : WORD := 0x01#8 ++ sp

def push (v : BYTE) : MosM Unit := do
  write (stack (← get).sp) v
  modify fun s => { s with sp := s.sp - 1 }

def pull : MosM BYTE := do
  modify fun s => { s with sp := s.sp + 1 }
  read (stack (← get).sp)

/-- The high and the low byte of an address. -/
def hi (w : WORD) : BYTE := w.extractLsb' 8 8
def lo (w : WORD) : BYTE := w.extractLsb' 0 8

section Run

variable (addr : WORD) (v : BYTE) (s : State)

@[simp] theorem read_run : (read addr).run s = .read addr fun b => .ret (b, s) := rfl

@[simp] theorem write_run : (write addr v).run s = .write addr v (.ret ((), s)) := rfl

@[simp] theorem tick_run (k : ℕ) : (tick k).run s = .note k (.ret ((), s)) := rfl

@[simp] theorem fetch_run :
    fetch.run s = .read s.pc fun b => .ret (b, { s with pc := s.pc + 1 }) := by
  simp [fetch]

@[simp] theorem push_run :
    (push v).run s = .write (stack s.sp) v (.ret ((), { s with sp := s.sp - 1 })) := by
  simp [push]

@[simp] theorem pull_run :
    pull.run s = .read (stack (s.sp + 1)) fun b => .ret (b, { s with sp := s.sp + 1 }) := by
  simp [pull]

end Run

/-- The status byte as the processor pushes it: bits 4 and 5 set. -/
def State.status (s : State) : BYTE :=
  BitVec.ofBoolListBE [s.n, s.v, true, true, s.d, s.i, s.z, s.c]

/-- The flags taken from a pulled status byte. -/
def State.setStatus (s : State) (p : BYTE) : State :=
  { s with
    n := p.getLsbD 7
    v := p.getLsbD 6
    d := p.getLsbD 3
    i := p.getLsbD 2
    z := p.getLsbD 1
    c := p.getLsbD 0 }

/-! ### Addressing modes -/

/-- An indexed address, and whether it lies in another page than its base. -/
def indexed (base : WORD) (i : BYTE) : WORD × Bool :=
  (base + i.setWidth 16, hi (base + i.setWidth 16) != hi base)

/-- The effective address of a mode, and whether indexing crossed a page. The modes
without an operand in memory have none. -/
def effective : Mode → MosM (WORD × Bool)
  | .implied | .accumulator => do return ((← get).pc, false)
  | .immediate => do
      let pc := (← get).pc
      modify fun s => { s with pc := pc + 1 }
      return (pc, false)
  | .zeroPage => do
      let p ← fetch
      return (zp p, false)
  | .zeroPageX => do
      let p ← fetch
      return (zp (p + (← get).x), false)
  | .zeroPageY => do
      let p ← fetch
      return (zp (p + (← get).y), false)
  | .absolute => do
      let l ← fetch
      let h ← fetch
      return (h ++ l, false)
  | .absoluteX => do
      let l ← fetch
      let h ← fetch
      return indexed (h ++ l) (← get).x
  | .absoluteY => do
      let l ← fetch
      let h ← fetch
      return indexed (h ++ l) (← get).y
  | .indexedIndirect => do
      let p ← fetch
      let p := p + (← get).x
      let l ← read (zp p)
      let h ← read (zp (p + 1))
      return (h ++ l, false)
  | .indirectIndexed => do
      let p ← fetch
      let l ← read (zp p)
      let h ← read (zp (p + 1))
      return indexed (h ++ l) (← get).y
  | .indirect => do
      let pl ← fetch
      let ph ← fetch
      let l ← read (ph ++ pl)
      let h ← read (ph ++ (pl + 1))
      return (h ++ l, false)
  | .relative => do
      let off ← fetch
      let next := (← get).pc
      return (next + off.signExtend 16, hi (next + off.signExtend 16) != hi next)

/-! ### The effect of the mnemonics on the registers -/

namespace State

def nz (v : BYTE) (s : State) : State := { s with n := v.msb, z := v = 0 }

def lda (v : BYTE) (s : State) : State := { s with a := v }.nz v
def ldx (v : BYTE) (s : State) : State := { s with x := v }.nz v
def ldy (v : BYTE) (s : State) : State := { s with y := v }.nz v

/-- `A + M + C`: the carry is the unsigned overflow, `V` the signed one. -/
def adc (m : BYTE) (s : State) : State :=
  let sum := s.a.toNat + m.toNat + s.c.toNat
  let signed := s.a.toInt + m.toInt + s.c.toNat
  { s with
    c := 255 < sum
    v := signed < -128 ∨ 127 < signed }.lda (BitVec.ofNat 8 sum)

/-- `A - M - (1 - C)`: the carry is the absence of a borrow. -/
def sbc (m : BYTE) (s : State) : State :=
  let diff : ℤ := s.a.toNat - m.toNat - (1 - s.c.toNat)
  let signed : ℤ := s.a.toInt - m.toInt - (1 - s.c.toNat)
  { s with
    c := 0 ≤ diff
    v := signed < -128 ∨ 127 < signed }.lda (BitVec.ofInt 8 diff)

/-- Compare a register `r` with `m`. -/
def compare (r m : BYTE) (s : State) : State :=
  { s with c := m.toNat ≤ r.toNat }.nz (r - m)

/-- `BIT`: the two high bits of the operand, and whether it shares a bit with `A`. -/
def bit (m : BYTE) (s : State) : State :=
  { s with
    n := m.getLsbD 7
    v := m.getLsbD 6
    z := s.a &&& m = 0 }

end State

/-- The shifts: the shifted byte, and the registers with the bit shifted out in `C`. -/
def shift : Mnemonic → BYTE → State → BYTE × State
  | .ASL, m, s =>
      let r := (m.setWidth 7).concat false
      (r, { s with c := m.msb }.nz r)
  | .LSR, m, s =>
      let r := BitVec.cons false (m.extractLsb' 1 7)
      (r, { s with c := m.getLsbD 0 }.nz r)
  | .ROL, m, s =>
      let r := (m.setWidth 7).concat s.c
      (r, { s with c := m.msb }.nz r)
  | .ROR, m, s =>
      let r := BitVec.cons s.c (m.extractLsb' 1 7)
      (r, { s with c := m.getLsbD 0 }.nz r)
  | _, m, s => (m, s)

/-! ### Instructions -/

/-- Read the operand of an instruction; an indexed read pays for a page crossing. -/
def load (mode : Mode) : MosM BYTE := do
  let (addr, crossed) ← effective mode
  if crossed then tick 1
  read addr

/-- An instruction that reads an operand. -/
def reading (mode : Mode) (f : BYTE → State → State) : MosM Unit := do
  let m ← load mode
  modify (f m)

/-- An instruction that stores a register. -/
def storing (mode : Mode) (r : State → BYTE) : MosM Unit := do
  let (addr, _) ← effective mode
  write addr (r (← get))

/-- An instruction that modifies a memory cell. -/
def modifying (mode : Mode) (f : BYTE → State → BYTE × State) : MosM Unit := do
  let (addr, _) ← effective mode
  let m ← read addr
  let (r, s) := f m (← get)
  set s
  write addr r

def shifting (m : Mnemonic) : Mode → MosM Unit
  | .accumulator => modify fun s => { (shift m s.a s).2 with a := (shift m s.a s).1 }
  | mode => modifying mode (shift m)

/-- A conditional branch. -/
def branch (mode : Mode) (taken : State → Bool) : MosM Unit := do
  let (target, crossed) ← effective mode
  if taken (← get) then
    tick 1
    if crossed then tick 1
    modify fun s => { s with pc := target }

/-- What an instruction does once its opcode is fetched. `lowFirst` is the order of the
two vector reads of `BRK`. -/
def execute (lowFirst : Bool) : Mnemonic → Mode → MosM Unit
  | .LDA, mode => reading mode State.lda
  | .LDX, mode => reading mode State.ldx
  | .LDY, mode => reading mode State.ldy
  | .AND, mode => reading mode fun m s => s.lda (s.a &&& m)
  | .ORA, mode => reading mode fun m s => s.lda (s.a ||| m)
  | .EOR, mode => reading mode fun m s => s.lda (s.a ^^^ m)
  | .ADC, mode => reading mode State.adc
  | .SBC, mode => reading mode State.sbc
  | .CMP, mode => reading mode fun m s => s.compare s.a m
  | .CPX, mode => reading mode fun m s => s.compare s.x m
  | .CPY, mode => reading mode fun m s => s.compare s.y m
  | .BIT, mode => reading mode State.bit
  | .STA, mode => storing mode State.a
  | .STX, mode => storing mode State.x
  | .STY, mode => storing mode State.y
  | .INC, mode => modifying mode fun m s => (m + 1, s.nz (m + 1))
  | .DEC, mode => modifying mode fun m s => (m - 1, s.nz (m - 1))
  | .ASL, mode => shifting .ASL mode
  | .LSR, mode => shifting .LSR mode
  | .ROL, mode => shifting .ROL mode
  | .ROR, mode => shifting .ROR mode
  | .TAX, _ => modify fun s => s.ldx s.a
  | .TAY, _ => modify fun s => s.ldy s.a
  | .TXA, _ => modify fun s => s.lda s.x
  | .TYA, _ => modify fun s => s.lda s.y
  | .TSX, _ => modify fun s => s.ldx s.sp
  | .TXS, _ => modify fun s => { s with sp := s.x }
  | .INX, _ => modify fun s => s.ldx (s.x + 1)
  | .INY, _ => modify fun s => s.ldy (s.y + 1)
  | .DEX, _ => modify fun s => s.ldx (s.x - 1)
  | .DEY, _ => modify fun s => s.ldy (s.y - 1)
  | .BCC, mode => branch mode fun s => !s.c
  | .BCS, mode => branch mode State.c
  | .BNE, mode => branch mode fun s => !s.z
  | .BEQ, mode => branch mode State.z
  | .BPL, mode => branch mode fun s => !s.n
  | .BMI, mode => branch mode State.n
  | .BVC, mode => branch mode fun s => !s.v
  | .BVS, mode => branch mode State.v
  | .CLC, _ => modify fun s => { s with c := false }
  | .SEC, _ => modify fun s => { s with c := true }
  | .CLD, _ => modify fun s => { s with d := false }
  | .SED, _ => modify fun s => { s with d := true }
  | .CLI, _ => modify fun s => { s with i := false }
  | .SEI, _ => modify fun s => { s with i := true }
  | .CLV, _ => modify fun s => { s with v := false }
  | .NOP, _ => pure ()
  | .JMP, mode => do
      let (target, _) ← effective mode
      modify fun s => { s with pc := target }
  | .JSR, mode => do
      let (target, _) ← effective mode
      let last := (← get).pc - 1
      push (hi last)
      push (lo last)
      modify fun s => { s with pc := target }
  | .RTS, _ => do
      let l ← pull
      let h ← pull
      modify fun s => { s with pc := h ++ l + 1 }
  | .PHA, _ => do push (← get).a
  | .PLA, _ => do
      let v ← pull
      modify (State.lda v)
  | .PHP, _ => do push (← get).status
  | .PLP, _ => do
      let p ← pull
      modify fun s => s.setStatus p
  | .BRK, _ => do
      let next := (← get).pc + 1
      push (hi next)
      push (lo next)
      push (← get).status
      modify fun s => { s with i := true }
      if lowFirst then
        let l ← read 0xFFFE
        let h ← read 0xFFFF
        modify fun s => { s with pc := h ++ l }
      else
        let h ← read 0xFFFF
        let l ← read 0xFFFE
        modify fun s => { s with pc := h ++ l }
  | .RTI, _ => do
      let p ← pull
      modify fun s => s.setStatus p
      let l ← pull
      let h ← pull
      modify fun s => { s with pc := h ++ l }

/-- One instruction; `none` when the opcode at the program counter is not documented. -/
def step (lowFirst : Bool) : MosM (Option Instr) := do
  let op ← fetch
  match decode op with
  | some ins =>
      tick ins.cycles
      execute lowFirst ins.mnemonic ins.mode
      return some ins
  | none => return none

end Mos6502

end B2OS
