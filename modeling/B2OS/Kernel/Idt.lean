import B2OS.Lib.Fill
import B2OS.Kernel.Interrupts

/-!
# The Interrupt Descriptor Table

This module embeds `Src/idt.c` and the part of `k_init_isr` that fills the table: 48 gates of eight
bytes each, and the register of six bytes that `lidt` loads. The addresses of the stubs are those
that the linker gives them.

The processor finds the gate of a vector in memory. What `Interrupts` says of an interrupt that has
come to its stub is said here of the interrupt itself.

## Main results

* `kInitIsr_fills`: the bytes that `k_init_isr` writes.
* `gateAt_kInitIsr`: what the processor finds for each vector.
* `interrupt_through_idt`: an interrupt runs the stub of its vector and goes back.
-/

namespace B2OS.Idt

open ProtectedMode Fill
open ByteMemory (Memory load32 store8 store16 store32)
open Interrupts (KERNEL_CS Transparent KeepsFrame doubledVectors errorCode)

def IDT_ENTRIES : ℕ := 256

/-- `low_16`. -/
def low16 (address : Dword) : BitVec 16 := (address &&& 0xFFFF).setWidth 16

/-- `high_16`. -/
def high16 (address : Dword) : BitVec 16 := ((address >>> 16) &&& 0xFFFF).setWidth 16

section Table

variable (idt idt_reg : Dword)

/-- `set_idt_gate`, field by field. -/
def setIdtGate (n : ℕ) (handler : Dword) (mem : Memory) : Memory :=
  let gate := idt + BitVec.ofNat 32 (8 * n)
  let mem := store16 mem gate (low16 handler)
  let mem := store16 mem (gate + 2) KERNEL_CS
  let mem := store8 mem (gate + 4) 0
  let mem := store8 mem (gate + 5) 0x8E
  store16 mem (gate + 6) (high16 handler)

/-- `set_idt`; `lidt` loads what it leaves. -/
def setIdt (mem : Memory) : Memory :=
  let mem := store32 mem (idt_reg + 2) idt
  store16 mem idt_reg (BitVec.ofNat 16 (IDT_ENTRIES * 8 - 1))

/-- `k_init_isr`: the memory and the register of the processor. -/
def kInitIsr (stubs : ℕ → Dword) (mem : Memory) : Memory × Idtr :=
  let mem := forUpTo (fun n => setIdtGate idt n (stubs n)) 32 mem
  let mem := forUpTo (fun n => setIdtGate idt (32 + n) (stubs (32 + n))) 16 mem
  let mem := setIdt idt idt_reg mem
  (mem, lidt mem idt_reg)

end Table

/-! ### The bytes of a gate -/

/-- Byte `i` of the gate of a handler. -/
def gateByte (handler : Dword) (i : ℕ) : BitVec 8 :=
  match i with
  | 0 => handler.setWidth 8
  | 1 => handler.extractLsb' 8 8
  | 2 => 0x08
  | 3 => 0x00
  | 4 => 0x00
  | 5 => 0x8E
  | 6 => handler.extractLsb' 16 8
  | 7 => handler.extractLsb' 24 8
  | _ => 0

/-- The processor reads back what `set_idt_gate` was given. -/
theorem decode_gateByte (handler : Dword) :
    Gate.decode (gateByte handler) = ⟨handler, KERNEL_CS, true, 0, 0b01110⟩ := by
  have hoffset : handler.extractLsb' 24 8 ++ handler.extractLsb' 16 8 ++
      handler.extractLsb' 8 8 ++ handler.setWidth 8 = handler := by
    ext i
    simp
    grind
  have hselector : (0x00#8 ++ 0x08#8 : Selector) = KERNEL_CS := by decide
  have hpresent : (0x8E#8).getLsbD 7 = true := by decide
  have hdpl : (0x8E#8).extractLsb' 5 2 = 0 := by decide
  have hkind : (0x8E#8).extractLsb' 0 5 = 0b01110 := by decide
  rw [Gate.decode, Gate.mk.injEq]
  exact ⟨hoffset, hselector, hpresent, hdpl, hkind⟩

theorem low16_bytes (h : Dword) : (low16 h).setWidth 8 = h.setWidth 8 ∧
    BitVec.ofNat 8 ((low16 h).toNat / 256) = h.extractLsb' 8 8 := by
  have hnat : (low16 h).toNat = h.toNat % 65536 := by
    have hmask : h.toNat % 65536 &&& 65535 = h.toNat % 65536 % 65536 :=
      Nat.and_two_pow_sub_one_eq_mod _ 16
    simp [low16, hmask]
  constructor <;>
  · apply BitVec.eq_of_toNat_eq
    simp [hnat, BitVec.extractLsb'_toNat, Nat.shiftRight_eq_div_pow] <;> omega

theorem high16_bytes (h : Dword) : (high16 h).setWidth 8 = h.extractLsb' 16 8 ∧
    BitVec.ofNat 8 ((high16 h).toNat / 256) = h.extractLsb' 24 8 := by
  have hlt := h.isLt
  have hnat : (high16 h).toNat = h.toNat / 65536 := by
    have hmask : h.toNat / 65536 % 65536 &&& 65535 = h.toNat / 65536 % 65536 % 65536 :=
      Nat.and_two_pow_sub_one_eq_mod _ 16
    simp [high16, Nat.shiftRight_eq_div_pow, hmask]
    omega
  constructor <;>
  · apply BitVec.eq_of_toNat_eq
    simp [hnat, BitVec.extractLsb'_toNat, Nat.shiftRight_eq_div_pow] <;> omega

/-- The address of byte `p.2` of gate `p.1`. -/
def gateCell (idt : Dword) (p : ℕ × ℕ) : Dword := idt + BitVec.ofNat 32 (8 * p.1 + p.2)

/-- `set_idt_gate` writes the eight bytes of its gate. -/
theorem setIdtGate_fills (idt : Dword) (stubs : ℕ → Dword) (n : ℕ) (mem : Memory) :
    Fills (gateCell idt) (fun p => gateByte (stubs p.1) p.2) {p | p.1 = n ∧ p.2 < 8} mem
      (setIdtGate idt n (stubs n) mem) := by
  have hcell : ∀ i, gateCell idt (n, i) = idt + BitVec.ofNat 32 (8 * n) + BitVec.ofNat 32 i := by
    intro i
    rw [gateCell, BitVec.ofNat_add, BitVec.add_assoc]
  generalize hgate : idt + BitVec.ofNat 32 (8 * n) = gate at hcell
  constructor
  · rintro ⟨m, i⟩ ⟨hm, hi⟩
    obtain rfl : m = n := hm
    have hi' : i < 8 := hi
    rw [hcell]
    simp only [setIdtGate, hgate, store16, store8, BitVec.add_assoc, BitVec.reduceAdd]
    have hselector : KERNEL_CS.setWidth 8 = 8#8 ∧ BitVec.ofNat 8 (KERNEL_CS.toNat / 256) = 0#8 := by
      decide
    interval_cases i <;> simp [gateByte, low16_bytes, high16_bytes, hselector]
  · intro a ha
    have hne : ∀ i < 8, a ≠ gate + BitVec.ofNat 32 i := fun i hi h =>
      ha (n, i) ⟨rfl, hi⟩ ((hcell i).trans h.symm)
    have h0 : a ≠ gate := by simpa using hne 0 (by omega)
    have h1 := hne 1 (by omega)
    have h2 := hne 2 (by omega)
    have h3 := hne 3 (by omega)
    have h4 := hne 4 (by omega)
    have h5 := hne 5 (by omega)
    have h6 := hne 6 (by omega)
    have h7 := hne 7 (by omega)
    simp only [setIdtGate, hgate, store16, store8, BitVec.add_assoc, BitVec.reduceAdd]
    simp_all

/-! ### The table -/

/-- Different bytes of the table are different cells. -/
theorem gateCell_agree (idt : Dword) (stubs : ℕ → Dword) :
    Agree (gateCell idt) (fun p => gateByte (stubs p.1) p.2)
      {p | ∃ n < 48, p ∈ {p : ℕ × ℕ | p.1 = n ∧ p.2 < 8}} := by
  rintro ⟨v, i⟩ ⟨n, hn, hv, hi⟩ ⟨w, j⟩ ⟨m, hm, hw, hj⟩ hcell
  dsimp only at hv hi hw hj
  have hsum : 8 * v + i = 8 * w + j := by
    rw [gateCell, gateCell] at hcell
    bv_omega
  obtain rfl : v = w := by omega
  obtain rfl : i = j := by omega
  rfl

/-- `k_init_isr` fills the first 48 gates, before it loads the table. -/
theorem kInitIsr_fills (idt : Dword) (stubs : ℕ → Dword) (mem : Memory) :
    Fills (gateCell idt) (fun p => gateByte (stubs p.1) p.2)
      {p | ∃ n < 48, p ∈ {p : ℕ × ℕ | p.1 = n ∧ p.2 < 8}} mem
      (forUpTo (fun n => setIdtGate idt (32 + n) (stubs (32 + n))) 16
        (forUpTo (fun n => setIdtGate idt n (stubs n)) 32 mem)) := by
  have hloop : forUpTo (fun n => setIdtGate idt (32 + n) (stubs (32 + n))) 16
      (forUpTo (fun n => setIdtGate idt n (stubs n)) 32 mem) =
        forUpTo (fun n => setIdtGate idt n (stubs n)) (32 + 16) mem := by
    rw [forUpTo_add]
  rw [hloop]
  exact fills_forUpTo (fun n _ m => setIdtGate_fills idt stubs n m) (gateCell_agree idt stubs) mem

/-- `set_idt` writes six bytes, and `lidt` loads the table with all of its entries. -/
theorem setIdt_spec (idt idt_reg : Dword) (mem : Memory) :
    lidt (setIdt idt idt_reg mem) idt_reg = ⟨2047, idt⟩ ∧
      ∀ a, (∀ k < 6, a ≠ idt_reg + BitVec.ofNat 32 k) → setIdt idt idt_reg mem a = mem a := by
  constructor
  · have hbase : load32 (setIdt idt idt_reg mem) (idt_reg + 2) = idt := by
      have hword := ByteMemory.load32_store32 mem (idt_reg + 2) idt
      rw [← hword]
      refine load32_congr fun i hi => ?_
      have h0 : idt_reg + 2 + BitVec.ofNat 32 i ≠ idt_reg := by bv_omega
      have h1 : idt_reg + 2 + BitVec.ofNat 32 i ≠ idt_reg + 1 := by bv_omega
      rw [setIdt, store16, ByteMemory.store8_of_ne h1, ByteMemory.store8_of_ne h0, hword]
    have hlow : setIdt idt idt_reg mem idt_reg = 0xFF := by
      simp [setIdt, store16, store8, IDT_ENTRIES]
    have hhigh : setIdt idt idt_reg mem (idt_reg + 1) = 0x07 := by
      simp [setIdt, store16, IDT_ENTRIES]
    rw [lidt, hbase, hlow, hhigh]
    rfl
  · intro a ha
    have h0 : a ≠ idt_reg := by simpa using ha 0 (by omega)
    have h1 : a ≠ idt_reg + 1 := ha 1 (by omega)
    rw [setIdt, store16, ByteMemory.store8_of_ne h1, ByteMemory.store8_of_ne h0]
    refine store32_of_ne fun i hi => ?_
    have haddr : idt_reg + 2 + BitVec.ofNat 32 i = idt_reg + BitVec.ofNat 32 (2 + i) := by
      bv_omega
    rw [haddr]
    exact ha (2 + i) (by omega)

/-- A descriptor depends on its eight bytes. -/
theorem decode_congr {f g : ℕ → BitVec 8} (h : ∀ i < 8, f i = g i) :
    Gate.decode f = Gate.decode g := by
  simp only [Gate.decode, h 0 (by omega), h 1 (by omega), h 2 (by omega), h 3 (by omega),
    h 5 (by omega), h 6 (by omega), h 7 (by omega)]

section Gates

variable {idt idt_reg : Dword} {stubs : ℕ → Dword} {mem mem' : Memory}

/-- A memory that has the table as `k_init_isr` left it. -/
def KeepsTable (idt : Dword) (mem mem' : Memory) : Prop :=
  ∀ i < 2048, mem' (idt + BitVec.ofNat 32 i) = mem (idt + BitVec.ofNat 32 i)

/-- The table and what `lidt` loads are different objects. -/
def Apart (idt idt_reg : Dword) : Prop :=
  ∀ i < 2048, ∀ k < 6, idt + BitVec.ofNat 32 i ≠ idt_reg + BitVec.ofNat 32 k

/-- The processor finds the stubs, and behind them what was there before. -/
theorem gateAt_kInitIsr (hapart : Apart idt idt_reg)
    (hkeeps : KeepsTable idt (kInitIsr idt idt_reg stubs mem).1 mem') (v : ℕ) :
    (v < 48 → gateAt mem' (kInitIsr idt idt_reg stubs mem).2 v =
      some ⟨stubs v, KERNEL_CS, true, 0, 0b01110⟩) ∧
    (48 ≤ v → v < 256 → gateAt mem' (kInitIsr idt idt_reg stubs mem).2 v =
      some (.decode fun i => mem (idt + BitVec.ofNat 32 (8 * v + i)))) := by
  have hfills := kInitIsr_fills idt stubs mem
  generalize htable : forUpTo (fun n => setIdtGate idt (32 + n) (stubs (32 + n))) 16
    (forUpTo (fun n => setIdtGate idt n (stubs n)) 32 mem) = table at hfills
  have hinit : kInitIsr idt idt_reg stubs mem =
      (setIdt idt idt_reg table, lidt (setIdt idt idt_reg table) idt_reg) := by
    rw [kInitIsr, htable]
  obtain ⟨hidtr, hframe⟩ := setIdt_spec idt idt_reg table
  rw [hinit] at hkeeps ⊢
  have hbyte : ∀ i < 2048, mem' (idt + BitVec.ofNat 32 i) = table (idt + BitVec.ofNat 32 i) :=
    fun i hi => (hkeeps i hi).trans (hframe _ fun k hk => hapart i hi k hk)
  have hgate : v < 256 → gateAt mem' (lidt (setIdt idt idt_reg table) idt_reg) v =
      some (.decode fun i => table (idt + BitVec.ofNat 32 (8 * v + i))) := by
    intro hv
    have hlimit : 8 * v + 7 ≤ (2047 : BitVec 16).toNat := by
      change 8 * v + 7 ≤ 2047
      omega
    rw [hidtr, gateAt, if_pos hlimit]
    exact congrArg some (decode_congr fun i hi => hbyte _ (by omega))
  constructor
  · intro hv
    rw [hgate (by omega), ← decode_gateByte]
    exact congrArg some (decode_congr fun i hi => hfills.stored (v, i) ⟨v, hv, rfl, hi⟩)
  · intro hlo hhi
    rw [hgate hhi]
    refine congrArg some (decode_congr fun i hi => hfills.kept _ ?_)
    rintro ⟨w, j⟩ ⟨n, hn, hw, hj⟩ hcell
    dsimp only at hw hj
    rw [gateCell] at hcell
    bv_omega

end Gates

/-! ### Interrupts -/

/-- **An interrupt through the table that `k_init_isr` leaves.** The table lies in memory that was
zero, apart from what `lidt` loads, and is left alone afterwards. An interrupt of a vector with a
stub, but for the exceptions whose error code has two places, comes to the stub with interrupts off,
shows the handler its vector and the interrupted context, and goes back to the context. A vector
from 48 on is a fault. -/
theorem interrupt_through_idt (idt idt_reg : Dword) (stubs : ℕ → Dword) (mem : Memory)
    (hapart : Apart idt idt_reg) (hzero : ∀ i < 2048, mem (idt + BitVec.ofNat 32 i) = 0)
    (c : State) (hkeeps : KeepsTable idt (kInitIsr idt idt_reg stubs mem).1 c.mem)
    (hes : c.es = c.ds) (hfs : c.fs = c.ds) (hgs : c.gs = c.ds) :
    let idtr := (kInitIsr idt idt_reg stubs mem).2
    (∀ v stub, Interrupts.idt[v]? = some stub → v ∉ doubledVectors → ∀ code ret handler,
      KeepsFrame handler → ∃ t, c.deliver idtr v (errorCode v code) = some t ∧
        t.eip = stubs v ∧ t.cs = KERNEL_CS ∧ t.eflags.getLsbD 9 = false ∧
        let h := stub.enter ret t
        Interrupts.Sees v c (Interrupts.registersAt h.mem (h.esp + 4)) ∧
          Interrupts.Resumes c (stub.leave (handler h))) ∧
    ∀ v, 48 ≤ v → v < 256 → ∀ code, c.deliver idtr v code = none := by
  intro idtr
  refine ⟨fun v stub hstub hout code ret handler hhandler => ?_, fun v hlo hhi code => ?_⟩
  · have hv : v < 48 := (List.getElem?_eq_some_iff.mp hstub).1
    have hgate := (gateAt_kInitIsr hapart hkeeps v).1 hv
    obtain ⟨e, hextra⟩ := (Interrupts.idt_extra hstub code).1 hout
    refine ⟨c.interrupt (errorCode v code) KERNEL_CS (stubs v), ?_, rfl, rfl, ?_,
      Interrupts.transparent_of_extra hhandler hes hfs hgs hextra⟩
    · rw [State.deliver, hgate]
      rfl
    · simp [State.interrupt]
  · have hgate := (gateAt_kInitIsr hapart hkeeps v).2 hlo hhi
    rw [State.deliver, hgate]
    have hpresent : (Gate.decode fun i => mem (idt + BitVec.ofNat 32 (8 * v + i))).present =
        false := by
      rw [Gate.decode, hzero (8 * v + 5) (by omega)]
      rfl
    simp [hpresent]

/-- The kernel once it has its table. -/
def tableContext : State :=
  { Interrupts.kernelContext with mem := (kInitIsr 0x20000 0x30000 (fun v => 0xF800 + 16 * v)
      fun _ => 0).1 }

/-- The keyboard comes to its stub and goes back; nothing stands for vector 200. -/
theorem interrupt_through_idt_keyboard :
    let idtr := (kInitIsr 0x20000 0x30000 (fun v => 0xF800 + 16 * v) fun _ => 0).2
    (∃ t, tableContext.deliver idtr 33 [] = some t ∧ t.eip = 0xFA10 ∧
      Interrupts.Resumes tableContext
        (Interrupts.irq1.leave (Interrupts.kIsrHandler (Interrupts.irq1.enter 0xF900 t)))) ∧
      tableContext.deliver idtr 200 [] = none := by
  intro idtr
  have hapart : Apart 0x20000 0x30000 := fun i hi k hk => by bv_omega
  obtain ⟨hstub, hfault⟩ := interrupt_through_idt 0x20000 0x30000 (fun v => 0xF800 + 16 * v)
    (fun _ => 0) hapart (fun _ _ => rfl) tableContext (fun _ _ => rfl) rfl rfl rfl
  obtain ⟨t, hdeliver, heip, -, -, -, hresumes⟩ := hstub 33 Interrupts.irq1 rfl (by decide) 0 0xF900
    Interrupts.kIsrHandler Interrupts.kIsrHandler_keepsFrame
  exact ⟨⟨t, hdeliver, heip, hresumes⟩, hfault 200 (by omega) (by omega) []⟩

end B2OS.Idt
