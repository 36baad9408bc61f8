import B2OS.Lib.ByteMemory

/-!
# A Processor in Protected Mode

The registers of a 32-bit program in ring 0, a flat memory by byte, and what an interrupt, `iret`
and the instructions of the stack make of them. Addresses wrap around at 4 GiB, and nothing is said
about how the stack is aligned.

EIP is looked at only where an interrupt pushes it and where `iret` takes it back. Of the flags only
those are followed that an interrupt, `cli` and `sti` change.

## Main results

* `State.load32_pushAll`, `State.load32_above`: the double words that are pushed one after the
  other, from where the stack was, and from its top.
-/

namespace ProtectedMode

abbrev Selector := BitVec 16

abbrev Dword := BitVec 32

open ByteMemory (Memory load32 store32 store8_of_ne load32_store32)

/-- The lower half of a register. -/
def low (v : Dword) : Selector := v.setWidth 16

/-- A register with another lower half. -/
def setLow (v : Dword) (w : Selector) : Dword := v.extractLsb' 16 16 ++ w

@[simp] theorem low_setLow (v : Dword) (w : Selector) : low (setLow v w) = w :=
  BitVec.setWidth_append_eq_right

theorem low_setWidth (w : Selector) : low (w.setWidth 32) = w := by
  rw [low, BitVec.setWidth_setWidth_of_le w (by omega), BitVec.setWidth_eq]

/-- A store changes four bytes. -/
theorem store32_of_ne {mem : Memory} {a v x : Dword} (h : ∀ i < 4, x ≠ a + BitVec.ofNat 32 i) :
    store32 mem a v x = mem x := by
  have h0 : x ≠ a := by simpa using h 0 (by omega)
  have h1 : x ≠ a + 1 := h 1 (by omega)
  have h2 : x ≠ a + 2 := h 2 (by omega)
  have h3 : x ≠ a + 3 := h 3 (by omega)
  rw [store32, store8_of_ne h3, store8_of_ne h2, store8_of_ne h1, store8_of_ne h0]

/-- Memories that agree on its four bytes agree on a double word. -/
theorem load32_congr {mem mem' : Memory} {a : Dword}
    (h : ∀ i < 4, mem' (a + BitVec.ofNat 32 i) = mem (a + BitVec.ofNat 32 i)) :
    load32 mem' a = load32 mem a := by
  have h0 : mem' a = mem a := by simpa using h 0 (by omega)
  have h1 : mem' (a + 1) = mem (a + 1) := h 1 (by omega)
  have h2 : mem' (a + 2) = mem (a + 2) := h 2 (by omega)
  have h3 : mem' (a + 3) = mem (a + 3) := h 3 (by omega)
  rw [load32, load32, h0, h1, h2, h3]

/-! ### The processor -/

structure State where
  eax : Dword
  ecx : Dword
  edx : Dword
  ebx : Dword
  esp : Dword
  ebp : Dword
  esi : Dword
  edi : Dword
  eip : Dword
  eflags : Dword
  cs : Selector
  ds : Selector
  es : Selector
  fs : Selector
  gs : Selector
  mem : Memory

namespace State

def push (c : State) (v : Dword) : State :=
  { c with esp := c.esp - 4, mem := store32 c.mem (c.esp - 4) v }

/-- The double word on top of the stack. -/
def top (c : State) : Dword := load32 c.mem c.esp

/-- The stack without the double word on top. A `pop` is `top` and `drop`. -/
def drop (c : State) : State := { c with esp := c.esp + 4 }

/-- Double words pushed one after the other. -/
def pushAll (c : State) (l : List Dword) : State := l.foldl push c

def pusha (c : State) : State :=
  c.pushAll [c.eax, c.ecx, c.edx, c.ebx, c.esp, c.ebp, c.esi, c.edi]

/-- `popa`, which skips the double word of ESP. -/
def popa (c : State) : State :=
  let c := { c.drop with edi := c.top }
  let c := { c.drop with esi := c.top }
  let c := { c.drop with ebp := c.top }
  let c := c.drop
  let c := { c.drop with ebx := c.top }
  let c := { c.drop with edx := c.top }
  let c := { c.drop with ecx := c.top }
  { c.drop with eax := c.top }

/-- Clears the interrupt flag. -/
def cli (c : State) : State := { c with eflags := c.eflags &&& 0xFFFFFDFF }

/-- Sets the interrupt flag. -/
def sti (c : State) : State := { c with eflags := c.eflags ||| 0x00000200 }

/-- An interrupt in ring 0 through an interrupt gate: EFLAGS, CS, EIP and the error code, if there
is one, are pushed, and the flags IF, TF, NT, RF and VM are cleared. -/
def interrupt (c : State) (code : List Dword) (cs : Selector) (eip : Dword) : State :=
  { c.pushAll ([c.eflags, c.cs.setWidth 32, c.eip] ++ code) with
    eflags := c.eflags &&& 0xFFFCBCFF
    cs := cs
    eip := eip }

/-- `iret` to ring 0. -/
def iret (c : State) : State :=
  let c := { c.drop with eip := c.top }
  let c := { c.drop with cs := low c.top }
  { c.drop with eflags := c.top }

/-! ### The stack -/

section Stack

variable {c : State}

theorem pushAll_cons (c : State) (v : Dword) (l : List Dword) :
    c.pushAll (v :: l) = (c.push v).pushAll l := rfl

theorem pushAll_append (c : State) (l l' : List Dword) :
    c.pushAll (l ++ l') = (c.pushAll l).pushAll l' := List.foldl_append

/-- Pushes change the stack pointer and the memory only. -/
theorem pushAll_eq (c : State) (l : List Dword) :
    c.pushAll l = { c with esp := (c.pushAll l).esp, mem := (c.pushAll l).mem } := by
  induction l generalizing c with
  | nil => rfl
  | cons v l ih => exact ih (c.push v)

/-- Of a state pushes look at the stack pointer and the memory only. -/
theorem pushAll_congr {d : State} (hesp : d.esp = c.esp) (hmem : d.mem = c.mem) (l : List Dword) :
    (d.pushAll l).esp = (c.pushAll l).esp ∧ (d.pushAll l).mem = (c.pushAll l).mem := by
  induction l generalizing c d with
  | nil => exact ⟨hesp, hmem⟩
  | cons v l ih =>
      refine ih (congrArg (· - 4) hesp) ?_
      rw [push, push, hesp, hmem]

theorem esp_pushAll (c : State) (l : List Dword) :
    (c.pushAll l).esp = c.esp - BitVec.ofNat 32 (4 * l.length) := by
  induction l generalizing c with
  | nil => exact (BitVec.sub_zero _).symm
  | cons v l ih =>
      rw [pushAll_cons, ih, List.length_cons, push]
      bv_omega

/-- Pushes change the bytes below the stack pointer. -/
theorem pushAll_mem_of_apart {l : List Dword} (h : 4 * l.length < 2 ^ 32) {a : Dword}
    (ha : a = c.esp ∨ 4 * l.length < (c.esp - a).toNat) : (c.pushAll l).mem a = c.mem a := by
  induction l generalizing c with
  | nil => rfl
  | cons v l ih =>
      rw [List.length_cons] at h ha
      have hesp : (c.push v).esp = c.esp - 4 := rfl
      have hrest : 4 * l.length < ((c.push v).esp - a).toNat := by
        rw [hesp]
        bv_omega
      rw [pushAll_cons, ih (by omega) (Or.inr hrest)]
      refine store32_of_ne fun i hi => ?_
      bv_omega

/-- The double words lie below each other. -/
theorem load32_pushAll {l : List Dword} (h : 4 * l.length < 2 ^ 32) {i : ℕ} (hi : i < l.length) :
    load32 (c.pushAll l).mem (c.esp - BitVec.ofNat 32 (4 * (i + 1))) = l[i] := by
  induction l generalizing c i with
  | nil => exact absurd hi (Nat.not_lt_zero i)
  | cons v l ih =>
      rw [List.length_cons] at h hi
      have hesp : (c.push v).esp = c.esp - 4 := rfl
      rw [pushAll_cons]
      cases i with
      | zero =>
          have hkept : ∀ j < 4, ((c.push v).pushAll l).mem (c.esp - 4 + BitVec.ofNat 32 j) =
              (c.push v).mem (c.esp - 4 + BitVec.ofNat 32 j) := fun j hj => by
            refine pushAll_mem_of_apart (by omega) ?_
            rw [hesp]
            rcases Nat.eq_zero_or_pos j with rfl | hpos
            · exact Or.inl (BitVec.add_zero _)
            · right
              bv_omega
          exact (load32_congr hkept).trans (load32_store32 c.mem (c.esp - 4) v)
      | succ i =>
          have hword := ih (c := c.push v) (by omega) (i := i) (by omega)
          have haddr : (c.push v).esp - BitVec.ofNat 32 (4 * (i + 1)) =
              c.esp - BitVec.ofNat 32 (4 * (i + 1 + 1)) := by
            rw [hesp]
            bv_omega
          rw [haddr] at hword
          exact hword

/-- The same from the top of the stack up. -/
theorem load32_above {l : List Dword} (h : 4 * l.length < 2 ^ 32) {j : ℕ}
    (hj : j < l.reverse.length) :
    load32 (c.pushAll l).mem ((c.pushAll l).esp + BitVec.ofNat 32 (4 * j)) = l.reverse[j] := by
  have hlen : l.reverse.length = l.length := List.length_reverse
  have haddr : (c.pushAll l).esp + BitVec.ofNat 32 (4 * j) =
      c.esp - BitVec.ofNat 32 (4 * (l.length - 1 - j + 1)) := by
    rw [esp_pushAll]
    bv_omega
  rw [haddr, load32_pushAll h (by omega), List.getElem_reverse]

end Stack

end State

/-! ### Gates -/

/-- The interrupt descriptor table register. -/
structure Idtr where
  limit : BitVec 16
  base : Dword

/-- `lidt`. -/
def lidt (mem : Memory) (a : Dword) : Idtr where
  limit := mem (a + 1) ++ mem a
  base := load32 mem (a + 2)

/-- A descriptor of the table; `kind` has the type and the bit of the system segments. -/
structure Gate where
  offset : Dword
  selector : Selector
  present : Bool
  dpl : BitVec 2
  kind : BitVec 5
deriving DecidableEq

/-- The descriptor in eight bytes. -/
def Gate.decode (byte : ℕ → BitVec 8) : Gate where
  offset := byte 7 ++ byte 6 ++ byte 1 ++ byte 0
  selector := byte 3 ++ byte 2
  present := (byte 5).getLsbD 7
  dpl := (byte 5).extractLsb' 5 2
  kind := (byte 5).extractLsb' 0 5

/-- The descriptor of a vector, when the table reaches to it. -/
def gateAt (mem : Memory) (idtr : Idtr) (v : ℕ) : Option Gate :=
  if 8 * v + 7 ≤ idtr.limit.toNat then
    some (.decode fun i => mem (idtr.base + BitVec.ofNat 32 (8 * v + i)))
  else none

/-- The processor takes an interrupt through a 32-bit interrupt gate; with another descriptor, or
none, there is a fault. -/
def State.deliver (c : State) (idtr : Idtr) (v : ℕ) (code : List Dword) : Option State :=
  match gateAt c.mem idtr v with
  | some gate =>
      if gate.present ∧ gate.kind = 0b01110 then
        some (c.interrupt code gate.selector gate.offset)
      else none
  | none => none

/-! ### Segments -/

/-- The global descriptor table register. -/
structure Gdtr where
  limit : BitVec 16
  base : Dword

/-- A descriptor of a segment. -/
structure Descriptor where
  base : Dword
  limit : BitVec 20
  access : BitVec 8
  flags : BitVec 4
deriving DecidableEq

/-- The descriptor in eight bytes. -/
def Descriptor.decode (byte : ℕ → BitVec 8) : Descriptor where
  base := byte 7 ++ byte 4 ++ byte 3 ++ byte 2
  limit := (byte 6).extractLsb' 0 4 ++ byte 1 ++ byte 0
  access := byte 5
  flags := (byte 6).extractLsb' 4 4

/-- Eight bytes are the descriptor. -/
theorem Descriptor.decode_congr {byte byte' : ℕ → BitVec 8} (h : ∀ j < 8, byte j = byte' j) :
    decode byte = decode byte' := by
  rw [decode, decode, h 0 (by omega), h 1 (by omega), h 2 (by omega), h 3 (by omega),
    h 4 (by omega), h 5 (by omega), h 6 (by omega), h 7 (by omega)]

/-- The descriptor of a selector, when it selects one of the global table. -/
def descriptorAt (mem : Memory) (gdtr : Gdtr) (selector : Selector) : Option Descriptor :=
  let i := 8 * (selector.toNat / 8)
  if i = 0 ∨ selector.getLsbD 2 ∨ gdtr.limit.toNat < i + 7 then none
  else some (.decode fun j => mem (gdtr.base + BitVec.ofNat 32 (i + j)))

namespace Descriptor

/-- A segment of 32 bits from 0 to 4 GiB. -/
def Flat (d : Descriptor) : Prop := d.base = 0 ∧ d.limit = 0xFFFFF ∧ d.flags = 0b1100

/-- A code segment of ring 0 that is present. -/
def Code (d : Descriptor) : Prop := d.access &&& 0b11111000 = 0b10011000

/-- A data segment of ring 0 that is present, may be written to and grows upwards. -/
def Data (d : Descriptor) : Prop := d.access &&& 0b11111110 = 0b10010010

instance (d : Descriptor) : Decidable d.Flat := inferInstanceAs (Decidable (_ ∧ _ ∧ _))

instance (d : Descriptor) : Decidable d.Code := inferInstanceAs (Decidable (_ = _))

instance (d : Descriptor) : Decidable d.Data := inferInstanceAs (Decidable (_ = _))

end Descriptor

end ProtectedMode
