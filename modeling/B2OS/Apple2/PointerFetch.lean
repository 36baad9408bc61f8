import B2OS.Apple2.Refine

/-!
# Pointer Fetches

An indirect access of the 6502 takes a pointer from two bytes of one page: behind the last
byte of a page it goes on with the first byte of the same page. `ac_addr_mode_INDX`,
`ac_addr_mode_INDY`, `STA_INDY` and `JMP_IND` add 1 to a 16-bit address instead, so they
leave the page behind its last byte, and agree with the processor everywhere else.

## Main results

* `pointerFetch_in_page_iff`: the four fetches stay in the page exactly when the pointer
  does not start at the last byte of a page, and the load and the store form of `(zp),Y`
  reach the same address.
-/

universe u

namespace B2OS

/-- The address behind `p` in its page: `$hh00 + ((ll + 1) mod 256)`. -/
def samePageNext (p : WORD) : WORD :=
  BitVec.ofNat 16 (256 * (p.toNat / 256) + (p.toNat % 256 + 1) % 256)

/-- Behind its operand bytes, `k` of them, a run reads the low byte of `pointer` at `p` and
the high byte at the next address of the page. -/
def TakesPointer (accesses : List (Access WORD BYTE)) (k : ℕ) (p pointer : WORD) : Prop :=
  ∃ lo hi rest, accesses.drop k = .read p lo :: .read (samePageNext p) hi :: rest ∧
    pointer = mkWord lo hi

theorem samePageNext_eq_iff (p : WORD) : p + 1 = samePageNext p ↔ p.toNat % 256 ≠ 255 := by
  have hp := p.isLt
  rw [samePageNext, ← BitVec.toNat_inj, BitVec.toNat_add, BitVec.toNat_ofNat]
  have hone : (1 : WORD).toNat = 1 := rfl
  rw [hone]
  omega

/-- A word read behind `k` operand bytes stays in the page unless the page ends. -/
theorem takesPointer_iff {accesses rest : List (Access WORD BYTE)} {k : ℕ} {p : WORD}
    {lo hi : BYTE}
    (h : accesses.drop k = .read p lo :: .read (p + 1) hi :: rest) :
    TakesPointer accesses k p (mkWord lo hi) ↔ p.toNat % 256 ≠ 255 := by
  rw [← samePageNext_eq_iff]
  constructor
  · rintro ⟨lo', hi', rest', heq, -⟩
    rw [h] at heq
    simp only [List.cons.injEq, Access.read.injEq] at heq
    obtain ⟨-, ⟨hnext, -⟩, -⟩ := heq
    exact hnext
  · intro hnext
    exact ⟨lo, hi, rest, by rw [h, hnext], rfl⟩

section Fetch

variable {σ : Type u} (bus : Bus WORD BYTE σ) (c : Cpu) (s : σ)

/-- The first operand byte of the opcode that was just fetched. -/
def operandByte : BYTE := (bus.read c.PC s).1

/-- The second operand byte. -/
def operandByte2 : BYTE := (bus.read (c.PC + 1) (bus.read c.PC s).2).1

/-- `(zp,X)` stays in the zero page. -/
def IndxInPage : Prop :=
  let o := (acAddrModeINDX 0 c).exec bus s
  TakesPointer o.accesses 1 ((operandByte bus c s + c.X).setWidth 16) o.val.1

/-- `(zp),Y` stays in the zero page, in the form of the loads. -/
def IndyInPage : Prop :=
  let o := (acAddrModeINDY 0 c).exec bus s
  TakesPointer o.accesses 1 ((operandByte bus c s).setWidth 16) (o.val.1 - c.Y.setWidth 16)

/-- `STA (zp),Y` stays in the zero page, and stores `A` to the address that it finds. -/
def StaIndyInPage : Prop :=
  let o := (armSTA_INDY c).exec bus s
  ∃ addr, o.accesses.getLast? = some (.write addr c.A) ∧
    TakesPointer o.accesses 1 ((operandByte bus c s).setWidth 16) (addr - c.Y.setWidth 16)

/-- `JMP (ind)` stays in the page of its pointer. -/
def JmpIndInPage : Prop :=
  let o := (armJMP_IND c).exec bus s
  TakesPointer o.accesses 2 (mkWord (operandByte bus c s) (operandByte2 bus c s)) o.val.2.PC

/-! ### The four fetches as trees -/

theorem acAddrModeINDX_eq : acAddrModeINDX 0 c =
    .read c.PC fun t => .read ((t + c.X).setWidth 16) fun lo =>
      .read ((t + c.X).setWidth 16 + 1) fun hi =>
        .note ⟨-1, 2⟩ (.ret (mkWord lo hi, { c with PC := c.PC + 1 })) := rfl

theorem acAddrModeINDY_eq : acAddrModeINDY 0 c =
    .read c.PC fun zp => .read (zp.setWidth 16) fun lo => .read (zp.setWidth 16 + 1) fun hi =>
      .ret (mkWord lo hi + c.Y.setWidth 16, { c with PC := c.PC + 1 }) := rfl

theorem armSTA_INDY_eq : armSTA_INDY c =
    .read c.PC fun zp => .read (zp.setWidth 16) fun lo => .read (zp.setWidth 16 + 1) fun hi =>
      .note ⟨0, 2⟩ (.note ⟨0, 1⟩ (.write (mkWord lo hi + c.Y.setWidth 16) c.A
        (.ret ((), { c with PC := c.PC + 1 })))) := rfl

theorem armJMP_IND_eq : armJMP_IND c =
    .read c.PC fun l => .read (c.PC + 1) fun h => .note ⟨0, 2⟩
      (.read (mkWord l h) fun lo => .read (mkWord l h + 1) fun hi =>
        .note ⟨0, 2⟩ (.ret ((), { c with PC := mkWord lo hi }))) := rfl

theorem zeroPage_mod (b : BYTE) : (b.setWidth 16).toNat % 256 ≠ 255 ↔ b ≠ 0xFF := by
  have hb := b.isLt
  have hnat : (b.setWidth 16).toNat = b.toNat := by
    rw [BitVec.toNat_setWidth, Nat.mod_eq_of_lt (by omega)]
  rw [hnat, Ne, Ne, ← BitVec.toNat_inj, Nat.mod_eq_of_lt hb]
  rfl

theorem mkWord_mod (lo hi : BYTE) : (mkWord lo hi).toNat % 256 ≠ 255 ↔ lo ≠ 0xFF := by
  have hlo := lo.isLt
  rw [Mos6502.mkWord_toNat, Nat.mul_add_mod_self_right, Nat.mod_eq_of_lt hlo, Ne, Ne,
    ← BitVec.toNat_inj]
  rfl

theorem indxInPage_iff : IndxInPage bus c s ↔ operandByte bus c s + c.X ≠ 0xFF := by
  rw [IndxInPage, acAddrModeINDX_eq]
  simp only [BusProg.exec_read, BusProg.exec_note, BusProg.exec_ret]
  rw [← zeroPage_mod]
  exact takesPointer_iff rfl

theorem indyInPage_iff : IndyInPage bus c s ↔ operandByte bus c s ≠ 0xFF := by
  rw [IndyInPage, acAddrModeINDY_eq]
  simp only [BusProg.exec_read, BusProg.exec_ret, BitVec.add_sub_cancel]
  rw [← zeroPage_mod]
  exact takesPointer_iff rfl

theorem staIndyInPage_iff : StaIndyInPage bus c s ↔ operandByte bus c s ≠ 0xFF := by
  rw [StaIndyInPage, armSTA_INDY_eq]
  simp only [BusProg.exec_read, BusProg.exec_note, BusProg.exec_write, BusProg.exec_ret]
  rw [← zeroPage_mod]
  constructor
  · rintro ⟨addr, hlast, htakes⟩
    obtain ⟨rfl, -⟩ := Access.write.inj (Option.some.inj hlast)
    rw [BitVec.add_sub_cancel] at htakes
    exact (takesPointer_iff rfl).mp htakes
  · intro hpage
    refine ⟨_, rfl, ?_⟩
    rw [BitVec.add_sub_cancel]
    exact (takesPointer_iff rfl).mpr hpage

theorem jmpIndInPage_iff : JmpIndInPage bus c s ↔ operandByte bus c s ≠ 0xFF := by
  rw [JmpIndInPage, armJMP_IND_eq]
  simp only [BusProg.exec_read, BusProg.exec_note, BusProg.exec_ret]
  rw [← mkWord_mod (operandByte bus c s) (operandByte2 bus c s)]
  exact takesPointer_iff rfl

/-- The store form of `(zp),Y` reads what the load form reads, and writes where the load
form would read. -/
theorem armSTA_INDY_accesses :
    ((armSTA_INDY c).exec bus s).accesses = ((acAddrModeINDY 0 c).exec bus s).accesses ++
      [.write ((acAddrModeINDY 0 c).exec bus s).val.1 c.A] := rfl

/-- **Pointer fetches.** Each of the four fetches stays in the page of its pointer exactly
when the pointer does not start at the last byte of the page, and the two forms of `(zp),Y`
reach the same address. -/
theorem pointerFetch_in_page_iff :
    (IndxInPage bus c s ↔ operandByte bus c s + c.X ≠ 0xFF) ∧
    (IndyInPage bus c s ↔ operandByte bus c s ≠ 0xFF) ∧
    (StaIndyInPage bus c s ↔ operandByte bus c s ≠ 0xFF) ∧
    (JmpIndInPage bus c s ↔ operandByte bus c s ≠ 0xFF) ∧
    ((armSTA_INDY c).exec bus s).accesses = ((acAddrModeINDY 0 c).exec bus s).accesses ++
      [.write ((acAddrModeINDY 0 c).exec bus s).val.1 c.A] :=
  ⟨indxInPage_iff bus c s, indyInPage_iff bus c s, staIndyInPage_iff bus c s,
    jmpIndInPage_iff bus c s, armSTA_INDY_accesses bus c s⟩

end Fetch

/-- A pointer at `$FF`: the high byte comes from `$0100`. -/
theorem pointerFetch_leaves_page :
    ¬ ∀ (bus : Bus WORD BYTE (WORD → BYTE)) (c : Cpu) (m : WORD → BYTE),
      IndxInPage bus c m ∧ IndyInPage bus c m ∧ StaIndyInPage bus c m ∧ JmpIndInPage bus c m := by
  intro h
  obtain ⟨-, hindy, -, -⟩ := h Bus.flat Cpu.initial fun _ => 0xFF
  exact (indyInPage_iff _ _ _).mp hindy rfl

end B2OS
