import B2OS.Apple2.BankedMemory
import B2OS.Apple2.Stack

/-!
# Words in the Banked Memory

`mem_ReadWord` takes the low byte of a word from the first address and the high byte from the
next one. `mem_WriteWord` stores them the other way round. The two agree on words of two equal
bytes only.

On plain storage an access is a read or an update of one cell: reading changes nothing, and
`AppleMem.setCell` is all that a write does. Both word accesses are two of these, and since
distinct addresses name distinct cells, what they leave is computed cell by cell.

## Main results

* `Cell.select_inj`: an address is determined by the cell that it names.
* `memReadWord_exec`, `memWriteWord_exec`: what the two accesses answer and leave.
* `wordAgrees_iff`: on plain storage a word store and a word load agree exactly on a value of
  two equal bytes over two cells with equal bytes.
-/

namespace B2OS

open Machine

/-! ### Cells -/

/-- An address is determined by the cell that it names. -/
theorem Cell.select_inj {bank2 : Bool} {address address' : WORD} {c : Cell}
    (h : Cell.select bank2 address = some c) (h' : Cell.select bank2 address' = some c) :
    address = address' := by
  refine BitVec.eq_of_toNat_eq ?_
  simp only [Cell.select] at h h'
  split_ifs at h h' <;> simp only [Option.some.injEq] at h h' <;> subst h <;>
    simp only [Cell.ram.injEq, Cell.bk2.injEq, Cell.lgc.injEq, Fin.mk.injEq, reduceCtorEq] at h'
  case pos => exact h'.symm
  all_goals
    simp only [ROMSTART, BK2START, LGCSTART] at *
    omega

/-- The memory with another byte in one cell. -/
def AppleMem.setCell (m : AppleMem) (c : Cell) (value : BYTE) : AppleMem :=
  match c with
  | .ram i => { m with ram := fun j => if j = i then value else m.ram j }
  | .bk2 i => { m with bk2 := fun j => if j = i then value else m.bk2 j }
  | .lgc i => { m with lgc := fun j => if j = i then value else m.lgc j }

namespace AppleMem

@[simp] theorem LCBank2Enable_setCell (m : AppleMem) (c : Cell) (value : BYTE) :
    (m.setCell c value).LCBank2Enable = m.LCBank2Enable := by
  cases c <;> rfl

@[simp] theorem LCReadable_setCell (m : AppleMem) (c : Cell) (value : BYTE) :
    (m.setCell c value).LCReadable = m.LCReadable := by
  cases c <;> rfl

@[simp] theorem LCWritable_setCell (m : AppleMem) (c : Cell) (value : BYTE) :
    (m.setCell c value).LCWritable = m.LCWritable := by
  cases c <;> rfl

@[simp] theorem cell_setCell_self (m : AppleMem) (c : Cell) (value : BYTE) :
    (m.setCell c value).cell c = value := by
  cases c <;> exact if_pos rfl

theorem cell_setCell_of_ne (m : AppleMem) {b c : Cell} (value : BYTE) (h : b ≠ c) :
    (m.setCell c value).cell b = m.cell b := by
  cases b <;> cases c <;> first
    | rfl
    | exact if_neg fun he => h (congrArg _ he)

/-- To store the byte that a cell holds changes nothing. -/
@[simp] theorem setCell_cell (m : AppleMem) (c : Cell) : m.setCell c (m.cell c) = m := by
  have hsame : ∀ {n : ℕ} (f : Fin n → BYTE) (i : Fin n),
      (fun j => if j = i then f i else f j) = f := fun f i => funext fun j => by
    split_ifs with hj
    · rw [hj]
    · rfl
  cases c <;> simp only [setCell, cell, hsame]

end AppleMem

/-! ### Accesses to plain storage -/

/-- An address of plain storage: it is in RAM, or on the card while the card is readable and
writable. -/
def Machine.PlainAt (m : Machine) (address : WORD) : Prop :=
  address.toNat < RAMSIZE ∨
    ROMSTART ≤ address.toNat ∧ m.mem.LCReadable = true ∧ m.mem.LCWritable = true

instance (m : Machine) (address : WORD) : Decidable (m.PlainAt address) :=
  inferInstanceAs (Decidable (_ ∨ _))

/-- An address of plain storage names a cell. -/
theorem Machine.PlainAt.select {m : Machine} {address : WORD} (h : m.PlainAt address) :
    ∃ c, Cell.select m.mem.LCBank2Enable address = some c := by
  rw [← Option.ne_none_iff_exists', Ne, Cell.select_eq_none_iff]
  rcases h with hram | ⟨hcard, -, -⟩ <;> omega

/-- A read of plain storage answers the cell and changes nothing. -/
theorem memReadByte_plain {m : Machine} {address : WORD} {c : Cell} (h : m.PlainAt address)
    (hc : Cell.select m.mem.LCBank2Enable address = some c) :
    m.memReadByte address = (m.mem.cell c, m) := by
  have hval := m.memReadByte_cell hc (h.imp_right fun hcard => hcard.2.1)
  refine Prod.ext hval ?_
  rcases h with hram | ⟨hcard, -, -⟩
  · rw [Machine.memReadByte, dif_pos hram]
  · exact m.memReadByte_state hcard

/-- A write to plain storage stores into the cell and does nothing else. -/
theorem memWriteByte_plain {m : Machine} {address : WORD} {c : Cell} (value : BYTE)
    (h : m.PlainAt address) (hc : Cell.select m.mem.LCBank2Enable address = some c) :
    m.memWriteByte address value = { m with mem := m.mem.setCell c value } := by
  rcases h with hram | ⟨hcard, -, hon⟩
  · simp only [Cell.select, dif_pos hram, Option.some.injEq] at hc
    subst hc
    rw [m.memWriteByte_of_lt value hram]
    rfl
  · have hram : ¬ address.toNat < RAMSIZE := by
      simp only [ROMSTART, RAMSIZE] at *
      omega
    simp only [Cell.select, dif_neg hram, dif_pos hcard] at hc
    rw [Machine.memWriteByte, dif_neg hram, dif_pos ⟨hon, hcard⟩]
    split_ifs at hc with hbk2 <;> simp only [Option.some.injEq] at hc <;> subst hc
    · rw [dif_pos hbk2]
      rfl
    · rw [dif_neg hbk2]
      rfl

/-! ### Words -/

/-- `mem_ReadWord` on the machine: the word and the machine after the two reads. -/
def Machine.readWord (c : Cpu) (addr : WORD) (m : Machine) : WORD × Machine :=
  let o := ((memReadWord addr).run c).exec bus m
  (o.val.1, o.state)

/-- `mem_WriteWord` on the machine. -/
def Machine.writeWord (c : Cpu) (value addr : WORD) (m : Machine) : Machine :=
  (((memWriteWord value addr).run c).exec bus m).state

theorem Machine.readWord_eq (c : Cpu) (addr : WORD) (m : Machine) :
    m.readWord c addr =
      let r := m.memReadByte addr
      let r' := r.2.memReadByte (addr + 1)
      (mkWord r.1 r'.1, r'.2) := rfl

theorem Machine.writeWord_eq (c : Cpu) (value addr : WORD) (m : Machine) :
    m.writeWord c value addr =
      (m.memWriteByte addr ((value >>> 8).setWidth 8)).memWriteByte (addr + 1)
        ((value &&& 0xFF).setWidth 8) := rfl

/-- A word of plain storage is read from its two cells, the low byte first. -/
theorem memReadWord_exec (c : Cpu) {m : Machine} {addr : WORD} {b b' : Cell}
    (h : m.PlainAt addr) (h' : m.PlainAt (addr + 1))
    (hb : Cell.select m.mem.LCBank2Enable addr = some b)
    (hb' : Cell.select m.mem.LCBank2Enable (addr + 1) = some b') :
    m.readWord c addr = (mkWord (m.mem.cell b) (m.mem.cell b'), m) := by
  simp only [Machine.readWord_eq, memReadByte_plain h hb, memReadByte_plain h' hb']

/-- A word is written to plain storage with its high byte first. -/
theorem memWriteWord_exec (c : Cpu) {m : Machine} (value : WORD) {addr : WORD} {b b' : Cell}
    (h : m.PlainAt addr) (h' : m.PlainAt (addr + 1))
    (hb : Cell.select m.mem.LCBank2Enable addr = some b)
    (hb' : Cell.select m.mem.LCBank2Enable (addr + 1) = some b') :
    m.writeWord c value addr =
      { m with
        mem := (m.mem.setCell b ((value >>> 8).setWidth 8)).setCell b' (value.setWidth 8) } := by
  have hlow : (value &&& 0xFF).setWidth 8 = value.setWidth 8 := by
    ext i hi
    interval_cases i <;> simp
  have hplain : Machine.PlainAt
      { m with mem := m.mem.setCell b ((value >>> 8).setWidth 8) } (addr + 1) := by
    simpa [Machine.PlainAt] using h'
  rw [Machine.writeWord_eq, hlow, memWriteByte_plain _ h hb,
    memWriteByte_plain _ hplain (by simpa using hb')]

@[simp] theorem mkWord_low (lo hi : BYTE) : (mkWord lo hi).setWidth 8 = lo := by
  have hnat := Mos6502.mkWord_toNat lo hi
  refine BitVec.eq_of_toNat_eq ?_
  rw [BitVec.toNat_setWidth]
  omega

@[simp] theorem mkWord_high (lo hi : BYTE) : (mkWord lo hi >>> 8).setWidth 8 = hi := by
  have hnat := Mos6502.mkWord_toNat lo hi
  refine BitVec.eq_of_toNat_eq ?_
  rw [BitVec.toNat_setWidth, BitVec.toNat_ushiftRight, Nat.shiftRight_eq_div_pow]
  omega

/-- A word is made of these two bytes only. -/
theorem mkWord_eq_iff {lo hi : BYTE} {value : WORD} :
    mkWord lo hi = value ↔ lo = value.setWidth 8 ∧ hi = (value >>> 8).setWidth 8 := by
  constructor
  · rintro rfl
    exact ⟨(mkWord_low lo hi).symm, (mkWord_high lo hi).symm⟩
  · rintro ⟨rfl, rfl⟩
    exact mkWord_saved value

/-- A word store and a word load agree at an address. -/
structure WordAgrees (c : Cpu) (m : Machine) (value addr : WORD) : Prop where
  /-- The word that was written is read back. -/
  read_write : ((m.writeWord c value addr).readWord c addr).1 = value
  /-- A write changes the two cells of the word and nothing else. -/
  frame : ∀ b, Cell.select m.mem.LCBank2Enable addr ≠ some b →
    Cell.select m.mem.LCBank2Enable (addr + 1) ≠ some b →
    (m.writeWord c value addr).mem.cell b = m.mem.cell b
  images : (m.writeWord c value addr).mem.rom = m.mem.rom ∧
    (m.writeWord c value addr).mem.sl6 = m.mem.sl6
  /-- To write the word that was read changes nothing. -/
  write_read : (m.readWord c addr).2.writeWord c (m.readWord c addr).1 addr = m

/-- **On plain storage a word store and a word load agree exactly when the value consists of two
equal bytes and so does the word that it replaces.** -/
theorem wordAgrees_iff (c : Cpu) (m : Machine) (value addr : WORD)
    (h : m.PlainAt addr) (h' : m.PlainAt (addr + 1)) :
    WordAgrees c m value addr ↔
      (value >>> 8).setWidth 8 = value.setWidth 8 ∧
        (m.memReadByte addr).1 = (m.memReadByte (addr + 1)).1 := by
  obtain ⟨b, hb⟩ := h.select
  obtain ⟨b', hb'⟩ := h'.select
  have hne : b ≠ b' := by
    rintro rfl
    have heq := Cell.select_inj hb hb'
    bv_omega
  rw [memReadByte_plain h hb, memReadByte_plain h' hb']
  have hwrite := memWriteWord_exec c value h h' hb hb'
  have hplain : ∀ {a}, m.PlainAt a → (m.writeWord c value addr).PlainAt a := fun ha => by
    simpa [hwrite, Machine.PlainAt] using ha
  have hbank : (m.writeWord c value addr).mem.LCBank2Enable = m.mem.LCBank2Enable := by
    simp [hwrite]
  have hread := memReadWord_exec c (hplain h) (hplain h') (hbank.symm ▸ hb) (hbank.symm ▸ hb')
  constructor
  · rintro ⟨hrw, -, -, hwr⟩
    refine ⟨?_, ?_⟩
    · rw [hread, mkWord_eq_iff, hwrite] at hrw
      simpa [AppleMem.cell_setCell_of_ne _ _ hne] using hrw.1
    · have hcell := congrArg (fun m : Machine => m.mem.cell b') hwr
      simp only [memReadWord_exec c h h' hb hb', memWriteWord_exec c _ h h' hb hb',
        AppleMem.cell_setCell_self, mkWord_low] at hcell
      exact hcell
  · rintro ⟨hvalue, hcells⟩
    constructor
    case read_write =>
      rw [hread, mkWord_eq_iff, hwrite]
      simp [AppleMem.cell_setCell_of_ne _ _ hne, hvalue]
    case frame =>
      intro d hd hd'
      have hne : d ≠ b := fun he => hd (he ▸ hb)
      have hne' : d ≠ b' := fun he => hd' (he ▸ hb')
      rw [hwrite, AppleMem.cell_setCell_of_ne _ _ hne', AppleMem.cell_setCell_of_ne _ _ hne]
    case images =>
      rw [hwrite]
      cases b <;> cases b' <;> exact ⟨rfl, rfl⟩
    case write_read =>
      have hcells : m.mem.cell b = m.mem.cell b' := hcells
      rw [memReadWord_exec c h h' hb hb', memWriteWord_exec c _ h h' hb hb', mkWord_low, mkWord_high,
        ← hcells, AppleMem.setCell_cell, hcells, AppleMem.setCell_cell]

/-- The hypotheses hold of a word of the zero page. -/
theorem wordAgrees_iff_zero_page :
    WordAgrees .initial .initial 0x1212 0x10 ↔
      ((0x1212 : WORD) >>> 8).setWidth 8 = (0x1212 : WORD).setWidth 8 ∧
        (Machine.initial.memReadByte 0x10).1 = (Machine.initial.memReadByte (0x10 + 1)).1 :=
  wordAgrees_iff .initial .initial 0x1212 0x10 (by decide) (by decide)

/-- The word $1234 is read back as $3412. -/
theorem word_reads_swapped : ¬ WordAgrees .initial .initial 0x1234 0x10 := by
  intro h
  have hread : (Machine.readWord .initial 0x10 (Machine.writeWord .initial 0x1234 0x10 .initial)).1 =
      0x3412 := by decide
  have hagree := hread.symm.trans h.read_write
  revert hagree
  decide

end B2OS
