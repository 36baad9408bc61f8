import B2OS.Lib.MachineCode
import B2OS.Apple2.GuestRun
import B2OS.Apple2.ScreenRun
import B2OS.Apple2.Stack

/-!
# A Logic for Guest Code

Machine code of the guest is proved here on the documented processor, over RAM with a ROM above it,
and what is proved holds on the emulator. An instruction has two prices, the cycles that it is
documented to take and those that `ac_Run` charges for it, and `Reaches` keeps the two ledgers
side by side.

Code that is proved in this way stands in ROM, leaves the decimal mode off, and touches neither the
soft switches nor the controller's PROM.

## Main results

* `reaches_emulated`: steps of the documented processor are iterations of `ac_Run`, on every bus
  that behaves as storage for them.
* `comesTo_of_reaches`: the same on the memory of the machine, of which only RAM changes.
-/

universe u

namespace B2OS

open BusProg

/-! ### The memory that guest code may use -/

/-- The addresses of RAM. -/
def ramArea : Set WORD := {address | address.toNat < RAMSIZE}

/-- The addresses of RAM and of ROM: all but the soft switches and the controller's PROM. -/
def plainArea : Set WORD := {address | address.toNat < RAMSIZE ∨ ROMSTART ≤ address.toNat}

instance : DecidablePred (· ∈ ramArea) :=
  fun address => inferInstanceAs (Decidable (address.toNat < RAMSIZE))

theorem notMem_ramArea {address : WORD} (h : ROMSTART ≤ address.toNat) : address ∉ ramArea := by
  intro hram
  have hlt : address.toNat < RAMSIZE := hram
  simp only [ROMSTART, RAMSIZE] at h hlt
  omega

theorem ram_plain {address : WORD} (h : address ∈ ramArea) : address ∈ plainArea := .inl h

theorem rom_plain {address : WORD} (h : ROMSTART ≤ address.toNat) : address ∈ plainArea := .inr h

/-- RAM with a ROM above it. -/
abbrev guestBus (rom : WORD → BYTE) : Bus WORD BYTE (WORD → BYTE) := Bus.stored ramArea rom

namespace Mos6502

open State

/-- One instruction of the documented processor on RAM and ROM, which the emulator follows. Its
price is the cycles that it takes and the charge of its opcode. -/
structure GuestStep (lowFirst : Bool) (rom : WORD → BYTE) (x : State × (WORD → BYTE)) (k : ℕ × ℕ)
    (y : State × (WORD → BYTE)) : Prop where
  moves : iteration (guestBus rom) lowFirst x = y
  within : ∀ e ∈ (((step lowFirst).run x.1).exec (guestBus rom) x.2).accesses,
    e.Within plainArea ramArea
  followed : Followed (guestBus rom) x
  cycles : (((step lowFirst).run x.1).exec (guestBus rom) x.2).notes.sum = k.1
  charge : chargeOf ((guestBus rom).read x.1.pc x.2).1 = k.2

/-- The bytes `l` stand in ROM from `pc` on. -/
def CodeAt (rom : WORD → BYTE) : WORD → List BYTE → Prop
  | _, [] => True
  | pc, b :: l => (ROMSTART ≤ pc.toNat ∧ rom pc = b) ∧ CodeAt rom (pc + 1#16) l

instance CodeAt.decidable (rom : WORD → BYTE) :
    ∀ (pc : WORD) (l : List BYTE), Decidable (CodeAt rom pc l)
  | _, [] => isTrue trivial
  | pc, _ :: l =>
      have := CodeAt.decidable rom (pc + 1#16) l
      inferInstanceAs (Decidable (_ ∧ _))

/-- Stretches of code, instruction by instruction, each with its address. -/
abbrev Listing := List (WORD × List BYTE)

/-- The ROM holds the code. -/
def Listing.In (rom : WORD → BYTE) (l : Listing) : Prop := ∀ ins ∈ l, CodeAt rom ins.1 ins.2

instance (rom : WORD → BYTE) (l : Listing) : Decidable (l.In rom) :=
  inferInstanceAs (Decidable (∀ ins ∈ l, CodeAt rom ins.1 ins.2))

/-- An instruction stands in ROM at `pc`, and the next one at `next`. -/
structure Fetch (rom : WORD → BYTE) (pc : WORD) (l : List BYTE) (next : WORD) : Prop where
  code : CodeAt rom pc l
  next : pc + BitVec.ofNat 16 l.length = next

theorem Listing.In.fetch {rom : WORD → BYTE} {l : Listing} (h : l.In rom) {pc next : WORD}
    {ins : List BYTE} (hmem : (pc, ins) ∈ l) (hnext : pc + BitVec.ofNat 16 ins.length = next) :
    Fetch rom pc ins next :=
  ⟨h _ hmem, hnext⟩

section Rules

variable {lowFirst : Bool} {rom ρ ρ' : WORD → BYTE} {s s' : State} {pc next : WORD}

theorem toNat_zp (b : BYTE) : (zp b).toNat = b.toNat := by
  have hb := b.isLt
  rw [zp_eq, BitVec.toNat_setWidth]
  omega

theorem toNat_stack (sp : BYTE) : (stack sp).toNat = 0x0100 + sp.toNat := by
  rw [stack_eq]
  exact toNat_stackAddr sp

theorem zp_mem (b : BYTE) : zp b ∈ ramArea := by
  have hb := b.isLt
  change (zp b).toNat < RAMSIZE
  rw [toNat_zp, RAMSIZE]
  omega

theorem stack_mem (sp : BYTE) : stack sp ∈ ramArea := by
  have hsp := sp.isLt
  change (stack sp).toNat < RAMSIZE
  rw [toNat_stack, RAMSIZE]
  omega

theorem zp_ne_stack (b sp : BYTE) : zp b ≠ stack sp := by
  intro heq
  have hnat := congrArg BitVec.toNat heq
  have hb := b.isLt
  rw [toNat_zp, toNat_stack] at hnat
  omega

theorem zp_inj {b b' : BYTE} : zp b = zp b' ↔ b = b' := by
  refine ⟨fun heq => BitVec.eq_of_toNat_eq ?_, congrArg zp⟩
  rw [← toNat_zp, heq, toNat_zp]

theorem stack_inj {sp sp' : BYTE} : stack sp = stack sp' ↔ sp = sp' := by
  rw [stack_eq, stack_eq]
  exact stackAddr_inj

section Fetch

variable {op l h : BYTE}

theorem Fetch.one (hf : Fetch rom pc [op] next) :
    (ROMSTART ≤ pc.toNat ∧ rom pc = op) ∧ pc + 1#16 = next :=
  ⟨hf.code.1, hf.next⟩

theorem Fetch.two (hf : Fetch rom pc [op, l] next) :
    (ROMSTART ≤ pc.toNat ∧ rom pc = op) ∧
      (ROMSTART ≤ (pc + 1#16).toNat ∧ rom (pc + 1#16) = l) ∧ pc + 2#16 = next :=
  ⟨hf.code.1, hf.code.2.1, hf.next⟩

theorem Fetch.three (hf : Fetch rom pc [op, l, h] next) :
    (ROMSTART ≤ pc.toNat ∧ rom pc = op) ∧
      (ROMSTART ≤ (pc + 1#16).toNat ∧ rom (pc + 1#16) = l) ∧
      (ROMSTART ≤ (pc + 2#16).toNat ∧ rom (pc + 2#16) = h) ∧ pc + 3#16 = next := by
  have hthird := hf.code.2.2.1
  rw [BitVec.add_assoc] at hthird
  exact ⟨hf.code.1, hf.code.2.1, hthird, hf.next⟩

end Fetch

/-- The operand is not a pointer that wraps. -/
def PointerFree : Mode → Prop
  | .indexedIndirect | .indirectIndexed | .indirect => False
  | _ => True

theorem GuestStep.of_execute {op : BYTE} {ins : Instr} {k : ℕ} (hpc : s.pc = pc)
    (hop : ROMSTART ≤ pc.toNat ∧ rom pc = op) (hdecode : decode op = some ins)
    (hd : s.d = false) (hrti : ins.mnemonic ≠ .RTI)
    (hpointer : PointerFree ins.mode ∨
      ins.mode = .indirectIndexed ∧ ((guestBus rom).read (pc + 1#16) ρ).1 ≠ 0xFF)
    {o : Outcome WORD BYTE ℕ (Unit × State) (WORD → BYTE)}
    (ho : ((execute lowFirst ins.mnemonic ins.mode).run { s with pc := pc + 1 }).exec
      (guestBus rom) ρ = o)
    (hval : o.val.2 = s') (hstate : o.state = ρ')
    (hwithin : ∀ e ∈ o.accesses, e.Within plainArea ramArea) (hk : ins.cycles + o.notes.sum = k) :
    GuestStep lowFirst rom (s, ρ) (k, chargeOf op) (s', ρ') := by
  subst hpc
  have hread : (guestBus rom).read s.pc ρ = (op, ρ) := by
    rw [Bus.stored_read_of_notMem (notMem_ramArea hop.1), hop.2]
  have hstep : ((step lowFirst).run s).exec (guestBus rom) ρ =
      ⟨(some ins, o.val.2), o.state, .read s.pc op :: o.accesses, ins.cycles :: o.notes⟩ := by
    simp only [step, StateT.run_bind, fetch_run, read_bind, ret_bind, exec_read, hread, hdecode,
      tick_run, note_bind, exec_note, exec_bind, ho, StateT.run_pure, pure_eq, exec_ret,
      List.append_nil]
  refine ⟨?_, ?_, ⟨hd, ?_, ?_, ?_⟩, ?_, ?_⟩
  · rw [iteration, hstep, ← hval, ← hstate]
  · rw [hstep]
    intro e he
    rcases List.mem_cons.mp he with rfl | he
    · exact .inr hop.1
    · exact hwithin e he
  · rw [hread, hdecode]
    rfl
  · intro ins' hins'
    rw [hread, hdecode] at hins'
    obtain rfl := Option.some.inj hins'
    rw [hread]
    rcases hpointer with hfree | ⟨hmode, hne⟩
    · revert hfree
      cases ins.mode <;> simp [PointerFree]
    · rw [hmode]
      exact hne
  · intro ins' hins' hmnemonic
    rw [hread, hdecode] at hins'
    obtain rfl := Option.some.inj hins'
    exact absurd hmnemonic hrti
  · rw [hstep, List.sum_cons, hk]
  · rw [hread]

/-! ### The addressing modes -/

section Modes

variable {mn : Mnemonic} {mode : Mode} {op b : BYTE} {k l : ℕ} {f : BYTE → State → State}

/-- An instruction that reads an operand after its opcode. -/
theorem reading_immediate (hs : s.pc = pc ∧ s.d = false) (h : Fetch rom pc [op, b] next)
    (hdecode : decode op = some ⟨mn, .immediate, k⟩) (hcharge : chargeOf op = l) (hmn : mn ≠ .RTI)
    (hexec : execute lowFirst mn .immediate = reading .immediate f) :
    GuestStep lowFirst rom (s, ρ) (k, l) (f b { s with pc := next }, ρ) := by
  obtain ⟨hop, ⟨hrom, rfl⟩, rfl⟩ := h.two
  subst hcharge
  refine .of_execute hs.1 hop hdecode hs.2 hmn (.inl trivial) rfl ?_ ?_ ?_ ?_ <;>
    rw [hexec] <;>
    simp [reading, load, effective, Bus.stored_read_of_notMem (notMem_ramArea hrom),
      Access.Within, BitVec.add_assoc, rom_plain hrom]

/-- An instruction that reads an operand in page zero. -/
theorem reading_zeroPage (hs : s.pc = pc ∧ s.d = false) (h : Fetch rom pc [op, b] next)
    (hdecode : decode op = some ⟨mn, .zeroPage, k⟩) (hcharge : chargeOf op = l) (hmn : mn ≠ .RTI)
    (hexec : execute lowFirst mn .zeroPage = reading .zeroPage f) :
    GuestStep lowFirst rom (s, ρ) (k, l) (f (ρ (zp b)) { s with pc := next }, ρ) := by
  obtain ⟨hop, ⟨hrom, rfl⟩, rfl⟩ := h.two
  subst hcharge
  refine .of_execute hs.1 hop hdecode hs.2 hmn (.inl trivial) rfl ?_ ?_ ?_ ?_ <;>
    rw [hexec] <;>
    simp [reading, load, effective, Bus.stored_read_of_notMem (notMem_ramArea hrom),
      Bus.stored_read_of_mem (zp_mem _), Access.Within, BitVec.add_assoc, rom_plain hrom,
      ram_plain (zp_mem _)]

/-- An instruction that stores a register in page zero. -/
theorem storing_zeroPage {r : State → BYTE} (hs : s.pc = pc ∧ s.d = false)
    (h : Fetch rom pc [op, b] next) (hdecode : decode op = some ⟨mn, .zeroPage, k⟩)
    (hcharge : chargeOf op = l) (hmn : mn ≠ .RTI)
    (hexec : execute lowFirst mn .zeroPage = storing .zeroPage r) :
    GuestStep lowFirst rom (s, ρ) (k, l)
      ({ s with pc := next }, Function.update ρ (zp b) (r { s with pc := next })) := by
  obtain ⟨hop, ⟨hrom, rfl⟩, rfl⟩ := h.two
  subst hcharge
  refine .of_execute hs.1 hop hdecode hs.2 hmn (.inl trivial) rfl ?_ ?_ ?_ ?_ <;>
    rw [hexec] <;>
    simp [storing, effective, Bus.stored_read_of_notMem (notMem_ramArea hrom),
      Bus.stored_write_of_mem _ (zp_mem _), Access.Within, BitVec.add_assoc, rom_plain hrom,
      zp_mem]

/-- An instruction on the registers. -/
theorem on_registers {g : State → State} (hs : s.pc = pc ∧ s.d = false) (h : Fetch rom pc [op] next)
    (hdecode : decode op = some ⟨mn, mode, k⟩) (hcharge : chargeOf op = l) (hmn : mn ≠ .RTI)
    (hmode : PointerFree mode) (hexec : execute lowFirst mn mode = modify g) :
    GuestStep lowFirst rom (s, ρ) (k, l) (g { s with pc := next }, ρ) := by
  obtain ⟨hop, rfl⟩ := h.one
  subst hcharge
  refine .of_execute hs.1 hop hdecode hs.2 hmn (.inl hmode) rfl ?_ ?_ ?_ ?_ <;>
    rw [hexec] <;> simp

section Branch

variable {taken : State → Bool} {target : WORD}

/-- A branch that is not taken. -/
theorem branch_past (hs : s.pc = pc ∧ s.d = false) (h : Fetch rom pc [op, b] next)
    (hdecode : decode op = some ⟨mn, .relative, k⟩) (hcharge : chargeOf op = l) (hmn : mn ≠ .RTI)
    (hexec : execute lowFirst mn .relative = branch .relative taken)
    (htaken : taken { s with pc := next } = false) :
    GuestStep lowFirst rom (s, ρ) (k, l) ({ s with pc := next }, ρ) := by
  obtain ⟨hop, ⟨hrom, rfl⟩, rfl⟩ := h.two
  subst hcharge
  refine .of_execute hs.1 hop hdecode hs.2 hmn (.inl trivial) rfl ?_ ?_ ?_ ?_ <;>
    rw [hexec] <;>
    simp [branch, effective, Bus.stored_read_of_notMem (notMem_ramArea hrom), Access.Within,
      BitVec.add_assoc, rom_plain hrom, htaken]

/-- A branch that is taken, inside the page. -/
theorem branch_to (hs : s.pc = pc ∧ s.d = false) (h : Fetch rom pc [op, b] next)
    (hdecode : decode op = some ⟨mn, .relative, k⟩) (hcharge : chargeOf op = l) (hmn : mn ≠ .RTI)
    (hexec : execute lowFirst mn .relative = branch .relative taken)
    (htaken : taken { s with pc := next } = true) (htarget : next + b.signExtend 16 = target)
    (hpage : hi target = hi next) :
    GuestStep lowFirst rom (s, ρ) (k + 1, l) ({ s with pc := target }, ρ) := by
  obtain ⟨hop, ⟨hrom, rfl⟩, rfl⟩ := h.two
  subst hcharge htarget
  refine .of_execute hs.1 hop hdecode hs.2 hmn (.inl trivial) rfl ?_ ?_ ?_ ?_ <;>
    rw [hexec] <;>
    simp [branch, effective, Bus.stored_read_of_notMem (notMem_ramArea hrom), Access.Within,
      BitVec.add_assoc _ 1#16, rom_plain hrom, htaken, hpage]

end Branch

end Modes

/-! ### The instructions -/

section Instructions

variable {b : BYTE} {target : WORD}

theorem lda_im (hs : s.pc = pc ∧ s.d = false) (h : Fetch rom pc [0xA9, b] next) :
    GuestStep lowFirst rom (s, ρ) (2, 0) (lda b { s with pc := next }, ρ) :=
  reading_immediate hs h rfl (by decide) (by decide) rfl

theorem ldy_im (hs : s.pc = pc ∧ s.d = false) (h : Fetch rom pc [0xA0, b] next) :
    GuestStep lowFirst rom (s, ρ) (2, 0) (ldy b { s with pc := next }, ρ) :=
  reading_immediate hs h rfl (by decide) (by decide) rfl

theorem and_im (hs : s.pc = pc ∧ s.d = false) (h : Fetch rom pc [0x29, b] next) :
    GuestStep lowFirst rom (s, ρ) (2, 0) (lda (s.a &&& b) { s with pc := next }, ρ) :=
  reading_immediate (f := fun m s => s.lda (s.a &&& m)) hs h rfl (by decide) (by decide) rfl

theorem ora_im (hs : s.pc = pc ∧ s.d = false) (h : Fetch rom pc [0x09, b] next) :
    GuestStep lowFirst rom (s, ρ) (2, 0) (lda (s.a ||| b) { s with pc := next }, ρ) :=
  reading_immediate (f := fun m s => s.lda (s.a ||| m)) hs h rfl (by decide) (by decide) rfl

theorem adc_im (hs : s.pc = pc ∧ s.d = false) (h : Fetch rom pc [0x69, b] next) :
    GuestStep lowFirst rom (s, ρ) (2, 0) (adc b { s with pc := next }, ρ) :=
  reading_immediate hs h rfl (by decide) (by decide) rfl

theorem sbc_im (hs : s.pc = pc ∧ s.d = false) (h : Fetch rom pc [0xE9, b] next) :
    GuestStep lowFirst rom (s, ρ) (2, 0) (sbc b { s with pc := next }, ρ) :=
  reading_immediate hs h rfl (by decide) (by decide) rfl

theorem lda_zp (hs : s.pc = pc ∧ s.d = false) (h : Fetch rom pc [0xA5, b] next) :
    GuestStep lowFirst rom (s, ρ) (3, 0) (lda (ρ (zp b)) { s with pc := next }, ρ) :=
  reading_zeroPage hs h rfl (by decide) (by decide) rfl

theorem ora_zp (hs : s.pc = pc ∧ s.d = false) (h : Fetch rom pc [0x05, b] next) :
    GuestStep lowFirst rom (s, ρ) (3, 0) (lda (s.a ||| (ρ (zp b))) { s with pc := next }, ρ) :=
  reading_zeroPage (f := fun m s => s.lda (s.a ||| m)) hs h rfl (by decide) (by decide) rfl

theorem adc_zp (hs : s.pc = pc ∧ s.d = false) (h : Fetch rom pc [0x65, b] next) :
    GuestStep lowFirst rom (s, ρ) (3, 0) (adc (ρ (zp b)) { s with pc := next }, ρ) :=
  reading_zeroPage hs h rfl (by decide) (by decide) rfl

theorem cmp_zp (hs : s.pc = pc ∧ s.d = false) (h : Fetch rom pc [0xC5, b] next) :
    GuestStep lowFirst rom (s, ρ) (3, 0) (compare s.a (ρ (zp b)) { s with pc := next }, ρ) :=
  reading_zeroPage (f := fun m s => s.compare s.a m) hs h rfl (by decide) (by decide) rfl

theorem cpy_zp (hs : s.pc = pc ∧ s.d = false) (h : Fetch rom pc [0xC4, b] next) :
    GuestStep lowFirst rom (s, ρ) (3, 0) (compare s.y (ρ (zp b)) { s with pc := next }, ρ) :=
  reading_zeroPage (f := fun m s => s.compare s.y m) hs h rfl (by decide) (by decide) rfl

theorem sta_zp (hs : s.pc = pc ∧ s.d = false) (h : Fetch rom pc [0x85, b] next) :
    GuestStep lowFirst rom (s, ρ) (3, 0)
      ({ s with pc := next }, Function.update ρ (zp b) s.a) :=
  storing_zeroPage hs h rfl (by decide) (by decide) rfl

theorem sty_zp (hs : s.pc = pc ∧ s.d = false) (h : Fetch rom pc [0x84, b] next) :
    GuestStep lowFirst rom (s, ρ) (3, 0)
      ({ s with pc := next }, Function.update ρ (zp b) s.y) :=
  storing_zeroPage hs h rfl (by decide) (by decide) rfl

theorem sec (hs : s.pc = pc ∧ s.d = false) (h : Fetch rom pc [0x38] next) :
    GuestStep lowFirst rom (s, ρ) (2, 1) ({ s with pc := next, c := true }, ρ) :=
  on_registers hs h rfl (by decide) (by decide) trivial rfl

theorem iny (hs : s.pc = pc ∧ s.d = false) (h : Fetch rom pc [0xC8] next) :
    GuestStep lowFirst rom (s, ρ) (2, 1) (ldy (s.y + 1) { s with pc := next }, ρ) :=
  on_registers (g := fun s => s.ldy (s.y + 1)) hs h rfl (by decide) (by decide) trivial rfl

theorem shift_LSR (b : BYTE) (s : State) :
    shift .LSR b s = (b >>> 1, nz (b >>> 1) { s with c := b.getLsbD 0 }) := by
  have hshift : BitVec.cons false (b.extractLsb' 1 7) = b >>> 1 := by
    ext i hi
    rw [BitVec.getElem_cons, BitVec.getElem_ushiftRight]
    split_ifs with h
    · subst h
      exact (BitVec.getLsbD_of_ge b (1 + 7) (by decide)).symm
    · rw [BitVec.getElem_extractLsb']
  rw [← hshift]
  rfl

theorem shift_ASL (b : BYTE) (s : State) :
    shift .ASL b s = (b <<< 1, nz (b <<< 1) { s with c := b.msb }) := by
  have hshift : (b.setWidth 7).concat false = b <<< 1 := by
    ext i hi
    rw [BitVec.getElem_concat, BitVec.getElem_shiftLeft]
    split_ifs with h
    · simp [h]
    · rw [BitVec.getElem_setWidth, decide_eq_false (by omega), Bool.not_false, Bool.true_and,
        BitVec.getLsbD_eq_getElem]
  rw [← hshift]
  rfl

theorem lsr (hs : s.pc = pc ∧ s.d = false) (h : Fetch rom pc [0x4A] next) :
    GuestStep lowFirst rom (s, ρ) (2, 0)
      (lda (s.a >>> 1) { s with pc := next, c := s.a.getLsbD 0 }, ρ) := by
  have hstep : GuestStep lowFirst rom (s, ρ) (2, 0)
      ({ (shift .LSR s.a { s with pc := next }).2 with
        a := (shift .LSR s.a { s with pc := next }).1 }, ρ) :=
    on_registers hs h rfl (by decide) (by decide) trivial rfl
  rwa [shift_LSR] at hstep

theorem asl (hs : s.pc = pc ∧ s.d = false) (h : Fetch rom pc [0x0A] next) :
    GuestStep lowFirst rom (s, ρ) (2, 0)
      (lda (s.a <<< 1) { s with pc := next, c := s.a.msb }, ρ) := by
  have hstep : GuestStep lowFirst rom (s, ρ) (2, 0)
      ({ (shift .ASL s.a { s with pc := next }).2 with
        a := (shift .ASL s.a { s with pc := next }).1 }, ρ) :=
    on_registers hs h rfl (by decide) (by decide) trivial rfl
  rwa [shift_ASL] at hstep

theorem bne_past (hs : s.pc = pc ∧ s.d = false) (h : Fetch rom pc [0xD0, b] next)
    (hflag : s.z = true) : GuestStep lowFirst rom (s, ρ) (2, 0) ({ s with pc := next }, ρ) :=
  branch_past hs h rfl (by decide) (by decide) rfl (by simp [hflag])

theorem bne_to (hs : s.pc = pc ∧ s.d = false) (h : Fetch rom pc [0xD0, b] next)
    (hflag : s.z = false) (htarget : next + b.signExtend 16 = target)
    (hpage : hi target = hi next) :
    GuestStep lowFirst rom (s, ρ) (3, 0) ({ s with pc := target }, ρ) :=
  branch_to hs h rfl (by decide) (by decide) rfl (by simp [hflag]) htarget hpage

theorem bcc_past (hs : s.pc = pc ∧ s.d = false) (h : Fetch rom pc [0x90, b] next)
    (hflag : s.c = true) : GuestStep lowFirst rom (s, ρ) (2, 0) ({ s with pc := next }, ρ) :=
  branch_past hs h rfl (by decide) (by decide) rfl (by simp [hflag])

theorem bcc_to (hs : s.pc = pc ∧ s.d = false) (h : Fetch rom pc [0x90, b] next)
    (hflag : s.c = false) (htarget : next + b.signExtend 16 = target)
    (hpage : hi target = hi next) :
    GuestStep lowFirst rom (s, ρ) (3, 0) ({ s with pc := target }, ρ) :=
  branch_to hs h rfl (by decide) (by decide) rfl (by simp [hflag]) htarget hpage

theorem bcs_to (hs : s.pc = pc ∧ s.d = false) (h : Fetch rom pc [0xB0, b] next)
    (hflag : s.c = true) (htarget : next + b.signExtend 16 = target)
    (hpage : hi target = hi next) :
    GuestStep lowFirst rom (s, ρ) (3, 0) ({ s with pc := target }, ρ) :=
  branch_to hs h rfl (by decide) (by decide) rfl (by simp [hflag]) htarget hpage

theorem beq_to (hs : s.pc = pc ∧ s.d = false) (h : Fetch rom pc [0xF0, b] next)
    (hflag : s.z = true) (htarget : next + b.signExtend 16 = target)
    (hpage : hi target = hi next) :
    GuestStep lowFirst rom (s, ρ) (3, 0) ({ s with pc := target }, ρ) :=
  branch_to hs h rfl (by decide) (by decide) rfl (by simp [hflag]) htarget hpage

end Instructions

/-! ### The stack, and indirect stores -/

theorem pha (hs : s.pc = pc ∧ s.d = false) (h : Fetch rom pc [0x48] next) :
    GuestStep lowFirst rom (s, ρ) (3, 0)
      ({ s with sp := s.sp - 1#8, pc := next }, Function.update ρ (stack s.sp) s.a) := by
  obtain ⟨hop, rfl⟩ := h.one
  refine .of_execute hs.1 hop rfl hs.2 (by decide) (.inl trivial) rfl ?_ ?_ ?_ ?_ <;>
    simp [execute, Bus.stored_write_of_mem _ (stack_mem _), Access.Within, stack_mem]

theorem pla (hs : s.pc = pc ∧ s.d = false) (h : Fetch rom pc [0x68] next) :
    GuestStep lowFirst rom (s, ρ) (4, 1)
      (lda (ρ (stack (s.sp + 1#8))) { s with sp := s.sp + 1#8, pc := next }, ρ) := by
  obtain ⟨hop, rfl⟩ := h.one
  refine .of_execute hs.1 hop rfl hs.2 (by decide) (.inl trivial) rfl ?_ ?_ ?_ ?_ <;>
    simp [execute, Bus.stored_read_of_mem (stack_mem _), Access.Within, ram_plain (stack_mem _)]

/-- The address behind the call whose return address is the next to be pulled. -/
def returnAddress (ρ : WORD → BYTE) (sp : BYTE) : WORD :=
  ρ (stack (sp + 1#8 + 1#8)) ++ ρ (stack (sp + 1#8)) + 1#16

/-- The stack with a return address pushed. -/
def pushReturn (ρ : WORD → BYTE) (sp : BYTE) (last : WORD) : WORD → BYTE :=
  Function.update (Function.update ρ (stack sp) (hi last)) (stack (sp - 1#8)) (lo last)

theorem jsr {l h : BYTE} {target : WORD} (hs : s.pc = pc ∧ s.d = false)
    (hf : Fetch rom pc [0x20, l, h] next) (htarget : h ++ l = target) :
    GuestStep lowFirst rom (s, ρ) (6, 1)
      ({ s with sp := s.sp - 1#8 - 1#8, pc := target }, pushReturn ρ s.sp (next - 1#16)) := by
  obtain ⟨hop, ⟨hlo, rfl⟩, ⟨hhi, rfl⟩, rfl⟩ := hf.three
  subst htarget
  refine .of_execute hs.1 hop rfl hs.2 (by decide) (.inl trivial) rfl ?_ ?_ ?_ ?_ <;>
    simp [execute, effective, Bus.stored_read_of_notMem (notMem_ramArea hlo),
      Bus.stored_read_of_notMem (notMem_ramArea hhi), Bus.stored_write_of_mem _ (stack_mem _),
      Access.Within, BitVec.add_assoc, rom_plain hlo, rom_plain hhi, stack_mem, pushReturn]

theorem rts (hs : s.pc = pc ∧ s.d = false) (h : Fetch rom pc [0x60] next) :
    GuestStep lowFirst rom (s, ρ) (6, 2)
      ({ s with sp := s.sp + 1#8 + 1#8, pc := returnAddress ρ s.sp }, ρ) := by
  obtain ⟨hop, rfl⟩ := h.one
  refine .of_execute hs.1 hop rfl hs.2 (by decide) (.inl trivial) rfl ?_ ?_ ?_ ?_ <;>
    simp [execute, Bus.stored_read_of_mem (stack_mem _), Access.Within, ram_plain (stack_mem _),
      returnAddress]

/-- A pointer in page zero. -/
def pointer (ρ : WORD → BYTE) (b : BYTE) : WORD := ρ (zp (b + 1#8)) ++ ρ (zp b)

/-- `STA (zp),Y`, through a pointer that does not wrap. -/
theorem sta_indirectIndexed (lowFirst : Bool) {b : BYTE} (hs : s.pc = pc ∧ s.d = false)
    (h : Fetch rom pc [0x91, b] next) (hb : b ≠ 0xFF)
    (hram : pointer ρ b + s.y.setWidth 16 ∈ ramArea) :
    GuestStep lowFirst rom (s, ρ) (6, 3)
      ({ s with pc := next }, Function.update ρ (pointer ρ b + s.y.setWidth 16) s.a) := by
  obtain ⟨hop, ⟨hrom, rfl⟩, rfl⟩ := h.two
  have hpointer : ((guestBus rom).read (pc + 1#16) ρ).1 ≠ 0xFF := by
    rwa [Bus.stored_read_of_notMem (notMem_ramArea hrom)]
  rw [pointer] at hram ⊢
  refine .of_execute hs.1 hop rfl hs.2 (by decide) (.inr ⟨rfl, hpointer⟩) rfl ?_ ?_ ?_ ?_ <;>
    simp [execute, storing, effective, indexed, Bus.stored_read_of_notMem (notMem_ramArea hrom),
      Bus.stored_read_of_mem (zp_mem _), Bus.stored_write_of_mem _ hram, Access.Within,
      BitVec.add_assoc _ 1#16, rom_plain hrom, ram_plain (zp_mem _), hram]

end Rules

end Mos6502

/-! ### Guest code on the emulator -/

section Emulated

open Mos6502

variable {σ : Type u} {bus : Bus WORD BYTE σ} {cell : σ → WORD → BYTE} {I : σ → Prop}
  {order : EvalOrder} {rom ρ ρ' : WORD → BYTE} {c : Cpu} {s : σ} {s' : State} {k : ℕ × ℕ}

/-- A step of guest code is an iteration of the loop of `ac_Run`. -/
theorem guestStep_emulated (h : bus.StoredOn plainArea ramArea cell)
    (hI : ∀ a ∈ ramArea, ∀ v t, I t → I (bus.write a v t))
    (hstep : GuestStep (order == .leftFirst) rom (c.view, ρ) k (s', ρ'))
    (hU : c.PS.Unused = true) (hs : Bus.Agrees plainArea ramArea rom cell s ρ) (hrest : I s) :
    ∃ c' t, acIteration bus order (c, s) = (c', t) ∧ c'.view = s' ∧ c'.PS.Unused = true ∧
      Bus.Agrees plainArea ramArea rom cell t ρ' ∧ I t ∧
      documentedCycles bus order (c, s) = k.1 ∧ chargeOf (nextOpcode bus (c, s)) = k.2 := by
  obtain ⟨hmoves, hwithin, hfollowed, hcycles, hcharge⟩ := hstep
  have hmatches : Matches (guestBus rom) (fun r r' => r'.2 = r.2.view) ((acStep order).run c)
      ((step (order == .leftFirst)).run c.view) ρ := acStep_matches hfollowed hU
  have hunused : (acIteration (guestBus rom) order (c, ρ)).1.PS.Unused = true :=
    (acIteration_unused_iff hU).mpr hfollowed.keepsUnused
  have hemulated : ∀ e ∈ (((acStep order).run c).exec (guestBus rom) ρ).accesses,
      e.Within plainArea ramArea := by
    rw [hmatches.accesses]
    exact hwithin
  obtain ⟨hval, hcharges, hagrees, hkept⟩ :=
    exec_storedOn h hI ((acStep order).run c) hs hrest hemulated
  obtain ⟨-, hnotes, -, -⟩ :=
    exec_storedOn h hI ((step (order == .leftFirst)).run c.view) hs hrest hwithin
  have hregs : (((step (order == .leftFirst)).run c.view).exec (guestBus rom) ρ).val.2 = s' :=
    congrArg Prod.fst hmoves
  have hmemory : (((step (order == .leftFirst)).run c.view).exec (guestBus rom) ρ).state = ρ' :=
    congrArg Prod.snd hmoves
  refine ⟨_, _, rfl, ?_, ?_, ?_, hkept, ?_, ?_⟩
  · rw [hval, ← hmatches.val]
    exact hregs
  · rw [hval]
    exact hunused
  · rwa [hmatches.state, hmemory] at hagrees
  · rw [documentedCycles, hnotes]
    exact hcycles
  · rw [← charged_acStep bus order c s, hcharges, charged_acStep]
    exact hcharge

/-- **What guest code does on the documented processor, it does on the emulator**, where it takes
the same number of instructions. The price is the cycles that these are documented to take and
those that `ac_Run` charges for them. -/
theorem reaches_emulated (h : bus.StoredOn plainArea ramArea cell)
    (hI : ∀ a ∈ ramArea, ∀ v t, I t → I (bus.write a v t)) {x y : State × (WORD → BYTE)}
    (hreaches : Reaches (GuestStep (order == .leftFirst) rom) x k y) (hc : c.view = x.1)
    (hU : c.PS.Unused = true) (hs : Bus.Agrees plainArea ramArea rom cell s x.2) (hrest : I s) :
    ∃ n c' t, (acIteration bus order)^[n] (c, s) = (c', t) ∧ c'.view = y.1 ∧
      c'.PS.Unused = true ∧ Bus.Agrees plainArea ramArea rom cell t y.2 ∧ I t ∧
      Budget.spent (acIteration bus order) (documentedCycles bus order) (c, s) n = k.1 ∧
      Budget.spent (acIteration bus order) (fun x => chargeOf (nextOpcode bus x)) (c, s) n =
        k.2 := by
  induction hreaches generalizing c s with
  | refl x => exact ⟨0, c, s, rfl, hc, hU, hs, hrest, rfl, rfl⟩
  | @head x y z k l first rest ih =>
      obtain ⟨s₀, ρ₀⟩ := x
      obtain ⟨s₁, ρ₁⟩ := y
      obtain rfl : c.view = s₀ := hc
      obtain ⟨c₁, t₁, hiteration, hc₁, hU₁, hs₁, hrest₁, hcycles, hcharge⟩ :=
        guestStep_emulated h hI first hU hs hrest
      obtain ⟨n, c', t, hiterate, hc', hU', hs', hrest', hcycles', hcharge'⟩ :=
        ih hc₁ hU₁ hs₁ hrest₁
      refine ⟨n + 1, c', t, ?_, hc', hU', hs', hrest', ?_, ?_⟩
      · rw [Function.iterate_succ_apply, hiteration, hiterate]
      · rw [Budget.spent_succ', hiteration, hcycles', hcycles]
        rfl
      · rw [Budget.spent_succ', hiteration, hcharge', hcharge]
        rfl

end Emulated

/-! ### The memory of the machine -/

namespace Machine

/-- The machine with other contents of the RAM. -/
def withRam (m : Machine) (ram : Fin RAMSIZE → BYTE) : Machine :=
  { m with mem := { m.mem with ram := ram } }

/-- The machine with the RAM of a memory. -/
def loaded (m : Machine) (ρ : WORD → BYTE) : Machine :=
  m.withRam fun i => ρ (BitVec.ofNat 16 i.val)

/-- The memory of the machine is storage, outside of the soft switches and the controller's
PROM. -/
theorem bus_storedOn : Machine.bus.StoredOn plainArea ramArea Machine.byteAt where
  read a ha m := by
    refine Prod.ext rfl ?_
    change (m.memReadByte a).2 = m
    rcases ha with hram | hrom
    · rw [memReadByte, dif_pos hram]
    · exact m.memReadByte_state hrom
  write_self a ha v m := by
    have ha : a.toNat < RAMSIZE := ha
    change byteAt (m.memWriteByte a v) a = v
    rw [byteAt_ram _ ha, m.memWriteByte_of_lt v ha]
    exact if_pos rfl
  write_other a ha v m b hb hba := by
    have ha : a.toNat < RAMSIZE := ha
    have hne : b.toNat ≠ a.toNat := fun h => hba (BitVec.eq_of_toNat_eq h)
    change byteAt (m.memWriteByte a v) b = byteAt m b
    rw [m.memWriteByte_of_lt v ha]
    rcases hb with hram | hrom
    · have hcell : (⟨b.toNat, hram⟩ : Fin RAMSIZE) ≠ ⟨a.toNat, ha⟩ := fun h => hne (Fin.mk.inj h)
      rw [byteAt_ram _ hram, byteAt_ram _ hram]
      exact if_neg hcell
    · have hnot : ¬ b.toNat < RAMSIZE := fun h => notMem_ramArea hrom h
      simp only [byteAt, memReadByte, dif_neg hnot, dif_pos hrom]
      split_ifs <;> rfl

theorem byteAt_loaded (m : Machine) (ρ : WORD → BYTE) {a : WORD} (ha : a ∈ ramArea) :
    byteAt (m.loaded ρ) a = ρ a := by
  have ha : a.toNat < RAMSIZE := ha
  rw [byteAt_ram _ ha]
  exact congrArg ρ (BitVec.eq_of_toNat_eq (Nat.mod_eq_of_lt a.isLt))

/-- A write to RAM leaves the rest of the machine. -/
theorem write_withRam (m : Machine) {a : WORD} (ha : a ∈ ramArea) (v : BYTE) {m' : Machine}
    (h : ∃ ram, m' = m.withRam ram) : ∃ ram, Machine.bus.write a v m' = m.withRam ram := by
  obtain ⟨ram, rfl⟩ := h
  exact ⟨_, (m.withRam ram).memWriteByte_of_lt v ha⟩

end Machine

/-- From `c` and `m` the emulator **comes to** the registers `s` and the RAM `ρ`, and nothing else
of the machine changes. The instructions on the way are documented to take `k.1` cycles, and are
charged `k.2`. Every call of `ac_Run` with a larger budget than that has them behind it when it
returns. -/
def ComesTo (order : EvalOrder) (c : Cpu) (m : Machine) (k : ℕ × ℕ) (s : Mos6502.State)
    (ρ : WORD → BYTE) : Prop :=
  ∃ n c', (acIteration Machine.bus order)^[n] (c, m) = (c', m.loaded ρ) ∧ c'.view = s ∧
    c'.PS.Unused = true ∧
    Budget.spent (acIteration Machine.bus order) (documentedCycles Machine.bus order) (c, m) n =
      k.1 ∧
    Budget.spent (acIteration Machine.bus order) (fun x => chargeOf (nextOpcode Machine.bus x))
      (c, m) n = k.2 ∧
    ∀ fuel cycle r, acRun Machine.bus order fuel cycle c m = some r → k.2 < cycle.toNat →
      n < r.iterations

/-- **What guest code does on the documented processor, it does on the machine.** -/
theorem comesTo_of_reaches {order : EvalOrder} {c : Cpu} {m : Machine} {k : ℕ × ℕ}
    {s : Mos6502.State} {ρ : WORD → BYTE}
    (h : Reaches (Mos6502.GuestStep (order == .leftFirst) m.byteAt) (c.view, m.byteAt) k (s, ρ))
    (hU : c.PS.Unused = true) : ComesTo order c m k s ρ := by
  have hagrees : Bus.Agrees plainArea ramArea m.byteAt Machine.byteAt m m.byteAt :=
    fun a _ => (ite_self _).symm
  obtain ⟨n, c', m', hiterate, hview, hU', hram, ⟨ram, rfl⟩, hcycles, hcharge⟩ :=
    reaches_emulated Machine.bus_storedOn (I := fun m' => ∃ ram, m' = m.withRam ram)
      (fun a ha v _ => m.write_withRam ha v) h rfl hU hagrees ⟨m.mem.ram, rfl⟩
  have hloaded : m.withRam ram = m.loaded ρ := by
    refine congrArg m.withRam (funext fun i => ?_)
    have hnat : (BitVec.ofNat 16 i.val).toNat = i.val :=
      Nat.mod_eq_of_lt (i.isLt.trans (by decide))
    have hmem : BitVec.ofNat 16 i.val ∈ ramArea := hnat.trans_lt i.isLt
    have hcell : Machine.byteAt (m.withRam ram) (BitVec.ofNat 16 i.val) =
        ρ (BitVec.ofNat 16 i.val) :=
      (hram _ (.inl hmem)).trans (if_pos hmem)
    rw [← hcell, Machine.byteAt_ram _ hmem]
    exact congrArg ram (Fin.ext hnat.symm)
  rw [hloaded] at hiterate
  refine ⟨n, c', hiterate, hview, hU', hcycles, hcharge, ?_⟩
  · intro fuel cycle r hrun hbudget
    have hreach := ((acRun_eq_some_iff Machine.bus order cycle c m r).mp ⟨fuel, hrun⟩).1.1
    by_contra hle
    have hmono : Budget.spent (acIteration Machine.bus order)
        (fun x => chargeOf (nextOpcode Machine.bus x)) (c, m) r.iterations ≤
        Budget.spent (acIteration Machine.bus order)
          (fun x => chargeOf (nextOpcode Machine.bus x)) (c, m) n :=
      Finset.sum_le_sum_of_subset (Finset.range_mono (Nat.not_lt.mp hle))
    omega

end B2OS
