import B2OS.Apple2.DiskII

/-!
# Banked Memory as a Store

The two decoders `mem_ReadByte` and `mem_WriteByte` have different guards and share four
switches. Seen through the physical cells, `Cell`, they are one store: an address outside
$C000-$CFFF names a cell by `LCBank2Enable` alone, a read answers that cell or ROM, and a
write changes that cell or nothing.

## Main results

* `memReadByte_cell`, `access_cell`: what a read answers and what an access stores.
* `faithfulStore`: over any run of accesses the memory is a faithful store.
* `bankedMemory_iff`: the indices of such a run stay in range exactly when no access to
  the data latch finds the head past track 34.
* `bus_ramOn`: to the processor, the addresses below $C000 are plain storage.
-/

namespace B2OS

/-- A physical cell: 48K of RAM, the 4K of bank 2, and the 12K of the card with bank 1
in its first 4K. -/
inductive Cell
  | ram (i : Fin RAMSIZE)
  | bk2 (i : Fin BK2SIZE)
  | lgc (i : Fin LGCSIZE)
deriving DecidableEq

/-- The places of an address on the card, in its second bank and elsewhere. -/
theorem card_places {address : WORD} (hcard : ROMSTART ≤ address.toNat) :
    (address.toNat < 0xE000 → address.toNat - BK2START < BK2SIZE) ∧
      address.toNat - LGCSTART < LGCSIZE := by
  have := address.isLt
  simp only [ROMSTART, BK2START, BK2SIZE, LGCSTART, LGCSIZE] at *
  omega

/-- The cell that an address names; none in $C000-$CFFF. -/
def Cell.select (LCBank2Enable : Bool) (address : WORD) : Option Cell :=
  let a := address.toNat
  if hram : a < RAMSIZE then some (.ram ⟨a, hram⟩)
  else if hcard : ROMSTART ≤ a then
    if hbk2 : LCBank2Enable ∧ a < 0xE000 then
      some (.bk2 ⟨a - BK2START, (card_places hcard).1 hbk2.2⟩)
    else some (.lgc ⟨a - LGCSTART, (card_places hcard).2⟩)
  else none

theorem Cell.select_eq_none_iff {LCBank2Enable : Bool} {address : WORD} :
    Cell.select LCBank2Enable address = none ↔
      RAMSIZE ≤ address.toNat ∧ address.toNat < ROMSTART := by
  simp only [Cell.select]
  split_ifs <;> simp only [false_iff, true_iff] <;> omega

theorem Cell.toNat_of_select_ram {LCBank2Enable : Bool} {address : WORD} {i : Fin RAMSIZE}
    (h : Cell.select LCBank2Enable address = some (.ram i)) : address.toNat = i := by
  simp only [Cell.select] at h
  split_ifs at h <;> simp only [Option.some.injEq, Cell.ram.injEq, reduceCtorEq] at h
  exact congrArg Fin.val h

/-- The content of a cell. -/
def AppleMem.cell (m : AppleMem) : Cell → BYTE
  | .ram i => m.ram i
  | .bk2 i => m.bk2 i
  | .lgc i => m.lgc i

namespace Machine

/-- The byte of ROM at an address from $D000 on. -/
def romIndex (address : WORD) (h : ROMSTART ≤ address.toNat) : Fin ROMSIZE :=
  ⟨address.toNat - ROMSTART, by
    have := address.isLt
    simp only [ROMSTART, ROMSIZE] at *
    omega⟩

/-- What an access stores into a cell: a write stores its value into the cell that it
names, in RAM always and on the card while `LCWritable` is set. -/
def stored (m : Machine) : MemAccess → Cell → Option BYTE
  | .read _, _ => none
  | .write address value, c =>
      if Cell.select m.mem.LCBank2Enable address = some c ∧
          (address.toNat < RAMSIZE ∨ m.mem.LCWritable) then some value
      else none

theorem SameStorage.cell {m m' : Machine} (h : SameStorage m m') (c : Cell) :
    m'.mem.cell c = m.mem.cell c := by
  cases c with
  | ram i => exact congrFun h.ram i
  | bk2 i => exact congrFun h.bk2 i
  | lgc i => exact congrFun h.lgc i

/-- A read answers the cell that its address names, on the card when it is readable. -/
theorem memReadByte_cell (m : Machine) {address : WORD} {c : Cell}
    (hc : Cell.select m.mem.LCBank2Enable address = some c)
    (hread : address.toNat < RAMSIZE ∨ m.mem.LCReadable) :
    (m.memReadByte address).1 = m.mem.cell c := by
  by_cases hram : address.toNat < RAMSIZE
  · simp only [Cell.select, dif_pos hram, Option.some.injEq] at hc
    subst hc
    simp [memReadByte, hram, AppleMem.cell]
  by_cases hcard : ROMSTART ≤ address.toNat
  · have hon : m.mem.LCReadable = true := by simpa [hram] using hread
    simp only [Cell.select, dif_neg hram, dif_pos hcard] at hc
    split_ifs at hc with hbk2 <;> simp only [Option.some.injEq] at hc <;> subst hc
    · simp [memReadByte, hram, hcard, hon, hbk2, AppleMem.cell]
    · simp [memReadByte, hram, hcard, hon, hbk2, AppleMem.cell]
  · simp only [Cell.select, dif_neg hram, dif_neg hcard, reduceCtorEq] at hc

/-- A read from $D000 on answers ROM when the card is not readable. -/
theorem memReadByte_rom (m : Machine) {address : WORD} (h : ROMSTART ≤ address.toNat)
    (hoff : m.mem.LCReadable = false) :
    (m.memReadByte address).1 = m.mem.rom (romIndex address h) := by
  have hram : ¬ address.toNat < RAMSIZE := by
    simp only [ROMSTART, RAMSIZE] at *
    omega
  simp [memReadByte, hram, h, hoff, romIndex]

/-- A write outside RAM that the card is not writable for changes no storage. -/
theorem memWriteByte_sameStorage (m : Machine) {address : WORD} (value : BYTE)
    (hram : RAMSIZE ≤ address.toNat)
    (hcard : address.toNat < ROMSTART ∨ m.mem.LCWritable = false) :
    SameStorage m (m.memWriteByte address value) := by
  have hlc : ¬ (m.mem.LCWritable ∧ ROMSTART ≤ address.toNat) := by
    rintro ⟨hw, hle⟩
    rcases hcard with hlt | hoff
    · omega
    · rw [hoff] at hw
      cases hw
  simp only [memWriteByte, dif_neg (Nat.not_lt.mpr hram), dif_neg hlc]
  split_ifs
  · exact m.adSoftSwitch_sameStorage address value true
  · exact .refl m

/-- A write that stores changes its cell only, and neither ROM nor the PROM. -/
theorem memWriteByte_stores (m : Machine) {address : WORD} (value : BYTE) {c : Cell}
    (hc : Cell.select m.mem.LCBank2Enable address = some c)
    (hw : address.toNat < RAMSIZE ∨ m.mem.LCWritable) :
    (∀ b, (m.memWriteByte address value).mem.cell b =
      if b = c then value else m.mem.cell b) ∧
    (m.memWriteByte address value).mem.rom = m.mem.rom ∧
    (m.memWriteByte address value).mem.sl6 = m.mem.sl6 := by
  by_cases hram : address.toNat < RAMSIZE
  · simp only [Cell.select, dif_pos hram, Option.some.injEq] at hc
    subst hc
    simp only [memWriteByte, dif_pos hram, and_true]
    intro b
    cases b <;> simp [AppleMem.cell]
  by_cases hcard : ROMSTART ≤ address.toNat
  · have hon : m.mem.LCWritable = true := by simpa [hram] using hw
    simp only [Cell.select, dif_neg hram, dif_pos hcard] at hc
    simp only [memWriteByte, dif_neg hram, hon, hcard, true_and, dif_pos]
    split_ifs at hc with hbk2 <;> simp only [Option.some.injEq] at hc <;> subst hc
    · simp only [hbk2, and_self, dif_pos, and_true]
      intro b
      cases b <;> simp [AppleMem.cell]
    · simp only [hbk2, dif_neg, not_false_eq_true, and_true]
      intro b
      cases b <;> simp [AppleMem.cell]
  · simp only [Cell.select, dif_neg hram, dif_neg hcard, reduceCtorEq] at hc

/-- A write goes to the cell of its address, or changes no storage. -/
theorem memWriteByte_cases (m : Machine) (address : WORD) (value : BYTE) :
    (∃ c, Cell.select m.mem.LCBank2Enable address = some c ∧
      (address.toNat < RAMSIZE ∨ m.mem.LCWritable)) ∨
    (SameStorage m (m.memWriteByte address value) ∧
      ∀ c, m.stored (.write address value) c = none) := by
  by_cases hw : address.toNat < RAMSIZE ∨ m.mem.LCWritable
  · cases hsel : Cell.select m.mem.LCBank2Enable address with
    | some c => exact .inl ⟨c, rfl, hw⟩
    | none =>
        obtain ⟨hlo, hhi⟩ := Cell.select_eq_none_iff.mp hsel
        refine .inr ⟨m.memWriteByte_sameStorage value hlo (.inl hhi), fun c => ?_⟩
        simp [stored, hsel]
  · obtain ⟨hram, hoff⟩ := not_or.mp hw
    refine .inr ⟨m.memWriteByte_sameStorage value (Nat.le_of_not_lt hram)
      (.inr (by simpa using hoff)), fun c => ?_⟩
    simp [stored, hw]

/-- The cell after an access is what the access stored there, or what it was. -/
theorem access_cell (m : Machine) (a : MemAccess) (c : Cell) :
    (m.access a).mem.cell c = (m.stored a c).getD (m.mem.cell c) := by
  cases a with
  | read address => exact (m.memReadByte_sameStorage address).cell c
  | write address value =>
      rcases m.memWriteByte_cases address value with ⟨b, hsel, hw⟩ | ⟨hsame, hnone⟩
      · rw [access, (m.memWriteByte_stores value hsel hw).1 c]
        by_cases hcb : c = b
        · simp [stored, hsel, hw, hcb]
        · simp [stored, hsel, hcb, Ne.symm hcb]
      · rw [access, hsame.cell c, hnone c]
        rfl

/-- No access changes ROM or the PROM of the disk controller. -/
theorem access_images (m : Machine) (a : MemAccess) :
    (m.access a).mem.rom = m.mem.rom ∧ (m.access a).mem.sl6 = m.mem.sl6 := by
  cases a with
  | read address =>
      have hsame := m.memReadByte_sameStorage address
      exact ⟨hsame.rom, hsame.sl6⟩
  | write address value =>
      rcases m.memWriteByte_cases address value with ⟨b, hsel, hw⟩ | ⟨hsame, -⟩
      · exact (m.memWriteByte_stores value hsel hw).2
      · exact ⟨hsame.rom, hsame.sl6⟩

end Machine

/-! ### Whole runs -/

/-- What a store has to do over a run of accesses from `m`. -/
structure FaithfulStore (m : Machine) (l : List MemAccess) : Prop where
  /-- A read of a storage cell answers the value written to it last, or the one of the
  start. -/
  read_cell : ∀ address c,
    Cell.select (l.foldl Machine.access m).mem.LCBank2Enable address = some c →
    (address.toNat < RAMSIZE ∨ (l.foldl Machine.access m).mem.LCReadable) →
    ((l.foldl Machine.access m).memReadByte address).1 =
      (lastStored Machine.access Machine.stored c m l).getD (m.mem.cell c)
  /-- With the card not readable, a read from $D000 on answers the ROM of the start. -/
  read_rom : ∀ (address : WORD) (h : ROMSTART ≤ address.toNat),
    (l.foldl Machine.access m).mem.LCReadable = false →
    ((l.foldl Machine.access m).memReadByte address).1 =
      m.mem.rom (Machine.romIndex address h)
  /-- A write to $C000-$CFFF, or to the card while it is not writable, changes no
  storage. -/
  write_protected : ∀ (address : WORD) value, RAMSIZE ≤ address.toNat →
    (address.toNat < ROMSTART ∨ (l.foldl Machine.access m).mem.LCWritable = false) →
    Machine.SameStorage (l.foldl Machine.access m)
      ((l.foldl Machine.access m).memWriteByte address value)
  /-- The loaded images stay. -/
  images : (l.foldl Machine.access m).mem.rom = m.mem.rom ∧
    (l.foldl Machine.access m).mem.sl6 = m.mem.sl6

/-- Over any run of accesses the banked memory is a faithful store. -/
theorem faithfulStore (m : Machine) (l : List MemAccess) : FaithfulStore m l := by
  have himages : (l.foldl Machine.access m).mem.rom = m.mem.rom ∧
      (l.foldl Machine.access m).mem.sl6 = m.mem.sl6 := by
    refine foldl_inv (I := fun n : Machine => n.mem.rom = m.mem.rom ∧ n.mem.sl6 = m.mem.sl6)
      (fun n a hn => ?_) l ⟨rfl, rfl⟩
    obtain ⟨hrom, hsl6⟩ := n.access_images a
    exact ⟨hrom.trans hn.1, hsl6.trans hn.2⟩
  constructor
  case read_cell =>
    intro address c hc hread
    rw [Machine.memReadByte_cell _ hc hread]
    exact cell_foldl (fun n : Machine => n.mem.cell) Machine.access_cell c l m
  case read_rom =>
    intro address h hoff
    rw [Machine.memReadByte_rom _ h hoff, himages.1]
  case write_protected =>
    intro address value hram hcard
    exact Machine.memWriteByte_sameStorage _ value hram hcard
  case images => exact himages

/-- The indices that an access uses are in range. -/
def IndicesInRange (m : Machine) (a : MemAccess) : Prop :=
  IndexInv m.device ∧ (a.address = 0xC0EC → m.device.latchIndex < DISK_SIZE)

/-- The data latch is inside the image exactly when the head is. -/
theorem latchIndex_lt_iff_track {d : Device} (h : IndexInv d) :
    d.latchIndex < DISK_SIZE ↔ (d.disk d.currentDrive).track.toNat < 35 := by
  have hnibble := h.nibble _ h.currentDrive
  simp only [Device.latchIndex, DISK_SIZE, TRACK_SIZE] at *
  omega

/-- **Over a run of accesses the banked memory is a faithful store with all indices in
range exactly when no access to the data latch finds the head past track 34.** -/
theorem bankedMemory_iff (m : Machine) (l : List MemAccess) (h : IndexInv m.device) :
    (FaithfulStore m l ∧ Along Machine.access IndicesInRange m l) ↔
      Along Machine.access (fun n a => a.address = 0xC0EC →
        (n.device.disk n.device.currentDrive).track.toNat < 35) m l := by
  rw [and_iff_right (faithfulStore m l)]
  refine Along.congr_of_inv (I := fun n => IndexInv n.device) access_indexInv ?_ l h
  intro n a hn
  rw [IndicesInRange, and_iff_right hn, latchIndex_lt_iff_track hn]

/-- The machine after `machine_InitMachine` meets the hypothesis. -/
theorem bankedMemory_start :
    let m := (Machine.machineInitMachine .blank (.initial, .initial)).2
    let l := [.write 0xC0EB 0, .read 0xC0E9, .read 0xC0EC]
    (FaithfulStore m l ∧ Along Machine.access IndicesInRange m l) ↔
      Along Machine.access (fun n a => a.address = 0xC0EC →
        (n.device.disk n.device.currentDrive).track.toNat < 35) m l :=
  bankedMemory_iff _ _ (machineInitMachine_indexInv _ _)

/-- A seek past the last track takes the index of the data latch out of the image. -/
theorem seek_leaves_range :
    ¬ (FaithfulStore (Machine.machineInitMachine .blank (.initial, .initial)).2
        ((List.range 70).flatMap seekStep ++ [.read 0xC0EC]) ∧
      Along Machine.access IndicesInRange
        (Machine.machineInitMachine .blank (.initial, .initial)).2
        ((List.range 70).flatMap seekStep ++ [.read 0xC0EC])) :=
  fun h => seek_latchIndex ((along_iff_forall_step.mp h.2 _ _ [] rfl).2 rfl)

/-! ### The processor's view -/

/-- The content of an address below $C000. -/
def Machine.ramCell (m : Machine) (address : WORD) : BYTE :=
  if h : address.toNat < RAMSIZE then m.mem.ram ⟨address.toNat, h⟩ else 0

/-- To the processor the addresses below $C000 are plain storage. -/
theorem bus_ramOn :
    Machine.bus.RamOn {address : WORD | address.toNat < RAMSIZE} Machine.ramCell where
  read_val a ha m := by
    have ha : a.toNat < RAMSIZE := ha
    simp [Machine.bus, Machine.memReadByte, Machine.ramCell, ha]
  read_cell a m b _ := by
    simp only [Machine.ramCell, Machine.bus, (m.memReadByte_sameStorage a).ram]
  write_self a ha v m := by
    have ha : a.toNat < RAMSIZE := ha
    simp [Machine.bus, Machine.memWriteByte_of_lt m v ha, Machine.ramCell, ha]
  write_other a v m b hb hab := by
    have hb : b.toNat < RAMSIZE := hb
    have hne : b.toNat ≠ a.toNat := fun h => hab (BitVec.eq_of_toNat_eq h.symm)
    have hnone : m.stored (.write a v) (.ram ⟨b.toNat, hb⟩) = none :=
      if_neg fun h => hne (Cell.toNat_of_select_ram h.1).symm
    have hcell := m.access_cell (.write a v) (.ram ⟨b.toNat, hb⟩)
    rw [hnone] at hcell
    simp only [Machine.ramCell, Machine.bus, dif_pos hb]
    exact hcell

end B2OS
