import B2OS.Lib.Fat12
import B2OS.Lib.RealMode
import B2OS.Lib.Run

/-!
# Reading Sectors and Following the FAT

The routines of `disk_read.asm`, which both stages of the boot loader include: `lbatochs`,
`read_disk`, `get_sector_value_op` and `load_file`. Each line of a definition is an
instruction of the routine; the labels are those of the stage that includes the file.

`int13` stands for the interrupt that reads a sector. On an error the loader prints a message
and hangs, which is `none` here, as is a loop that runs out of its `fuel`.

## Main results

* `lbatochs_eq`: the cylinder, head and sector of a block.
* `getSectorValueOp_spec`: the entry of a cluster in the copy of the FAT.
-/

namespace B2OS.Boot

open RealMode

/-- The address of the copy of the FAT. -/
def FAT12_LOCATION : Word := 0x7E00

def FAT12_SECTOR_COUNT : Word := 32

def BOOT_SECTOR_COUNT : Word := 1

def FAT_END_OF_CHAIN : Word := 0x0FF0

/-- The labels of a stage: its data, and the addresses behind its calls. -/
structure Labels where
  BytesPerSector : Word
  SectorsPerTrack : Word
  Head : Word
  BOOT_DISK : Word
  _cylinder : Word
  _head : Word
  _sector : Word
  afterLbatochs : Word
  afterReadDisk : Word
  afterGetSectorValue : Word

variable (L : Labels) (int13 : State → State)

/-! ### The routines -/

/-- The cylinder, head and sector of the block in AX. -/
def lbatochs (s : State) : Option State := do
  let s := { s with dx := 0 }
  let s ← s.div (s.wordAt L.SectorsPerTrack)
  let s := { s with dx := setLow s.dx (low s.dx + 1) }
  let s := s.storeByteAt L._sector (low s.dx)
  let s := { s with dx := 0 }
  let s ← s.div (s.wordAt L.Head)
  let s := s.storeByteAt L._head (low s.dx)
  some (s.storeByteAt L._cylinder (low s.ax))

/-- The registers of INT 13h: reads one sector of the boot drive. -/
def sectorRequest (s : State) : State :=
  let s := { s with ax := 0x0201 }
  let s := { s with cx := setHigh s.cx (s.byteAt L._cylinder) }
  let s := { s with cx := setLow s.cx (s.byteAt L._sector) }
  let s := { s with dx := setHigh s.dx (s.byteAt L._head) }
  { s with dx := setLow s.dx (s.byteAt L.BOOT_DISK) }

/-- `read_disk` from the label `read_ok` on, up to its `loop`. -/
def readOk (s : State) : State :=
  let s := { s.drop with cx := s.top }
  let s := { s.drop with bx := s.top }
  let s := { s.drop with ax := s.top }
  let s := { s with bx := s.bx + s.wordAt L.BytesPerSector }
  let s := { s with ax := s.ax + 1 }
  { s with cx := s.cx - 1 }

/-- One turn of `read_disk`. -/
def readSector (s : State) : Option State := do
  let s := s.push s.ax
  let s := s.push s.bx
  let s := s.push s.cx
  let s ← s.call L.afterLbatochs (lbatochs L)
  let s := int13 (sectorRequest L s)
  -- `read_error` does not return
  if s.carry then none else some (readOk L s)

/-- Reads CX sectors from the block in AX on to ES:BX. -/
def readDisk (fuel : ℕ) (s : State) : Option State := do
  let s ← doWhile (readSector L int13) (fun s => s.cx != 0) fuel s
  some { s with carry := false }

/-- The entry of the cluster in AX. -/
def getSectorValueOp (s : State) : Option State :=
  let s := { s with cx := s.ax }
  let s := { s with dx := s.ax }
  let s := { s with dx := s.dx >>> 1 }
  let s := { s with cx := s.cx + s.dx }
  let s := { s with bx := FAT12_LOCATION }
  let s := { s with bx := s.bx + s.cx }
  let s := { s with dx := s.wordAt s.bx }
  let s :=
    if s.ax &&& 1 = 0 then { s with dx := s.dx &&& 0x0FFF }
    else { s with dx := s.dx >>> 4 }
  some { s with ax := s.dx }

/-- `load_file` from the label `load_file_inc` to the jump back: reads the sector of the
current cluster and moves on to the next one. -/
def loadFileInc (fuel : ℕ) (s : State) : Option State := do
  let s := { s with cx := 1 }
  let s := { s with ax := word s.mem (s.frame 2) }
  let s := { s with ax := s.ax + (FAT12_SECTOR_COUNT + BOOT_SECTOR_COUNT) }
  let s := { s with ax := s.ax - 2 }
  let s ← s.call L.afterReadDisk (readDisk L int13 fuel)
  let s := { s with ax := word s.mem (s.frame 4) }
  let s := { s with ax := s.ax + 1 }
  let s := s.storeFrame 4 s.ax
  let s := { s with ax := word s.mem (s.frame 2) }
  let s ← s.call L.afterGetSectorValue getSectorValueOp
  some (s.storeFrame 2 s.ax)

/-- The address that the current cluster is read to: its offset in BX, and ES goes on by
64K when the offset has wrapped. -/
def sectorAddress (s : State) : State :=
  let s := { s with ax := word s.mem (s.frame 4) }
  let s := { s with dx := 0x200 }
  let s := s.mul s.dx
  let s := { s with bx := s.ax }
  let s := { s with bx := s.bx + word s.mem (s.frame 6) }
  if s.bx = 0 then
    let s := { s with ax := s.es }
    let s := { s with ax := s.ax + 0x1000 }
    { s with es := s.ax }
  else s

/-- One turn of the loop at `load_next_sector`. -/
def loadNextSector (fuel : ℕ) (s : State) : Option State :=
  loadFileInc L int13 fuel (sectorAddress s)

/-- The start of `load_file`, up to its loop. -/
def openFrame (s : State) : State :=
  let s := s.push32 s.ebp
  let s := { s with ebp := s.esp }
  let s := s.push s.ax
  let s := { s with bx := 0 }
  let s := s.push s.bx
  let s := s.push s.cx
  { s with es := s.bx }

/-- The end of `load_file`, behind its loop. -/
def closeFrame (s : State) : State :=
  let s := { s with bx := word s.mem (s.frame 4) }
  let s := s.setEsp s.ebp
  { s.drop.drop with ebp := s.drop.top ++ s.top }

/-- Reads the file that starts at the cluster in AX to the address in CX, and returns the
number of its clusters in BX. -/
def loadFile (fuel : ℕ) (s : State) : Option State := do
  let s ← doWhile (loadNextSector L int13 fuel) (fun s => s.ax.slt FAT_END_OF_CHAIN) fuel
    (openFrame s)
  some (closeFrame s)

/-! ### The data of a stage -/

namespace Labels

/-- The bytes that the routines store into, apart from the stack. -/
def Var (a : ℕ) : Prop := a = L._cylinder.toNat ∨ a = L._head.toNat ∨ a = L._sector.toNat

/-- The bytes of the constants. -/
def Const (a : ℕ) : Prop :=
  a = L.BytesPerSector.toNat ∨ a = L.BytesPerSector.toNat + 1 ∨
    a = L.SectorsPerTrack.toNat ∨ a = L.SectorsPerTrack.toNat + 1 ∨
    a = L.Head.toNat ∨ a = L.Head.toNat + 1 ∨ a = L.BOOT_DISK.toNat

/-- The variables are different bytes, and none of them is a constant's. -/
structure Apart : Prop where
  cylinder_head : L._cylinder ≠ L._head
  cylinder_sector : L._cylinder ≠ L._sector
  head_sector : L._head ≠ L._sector
  const : ∀ a, L.Const a → ¬ L.Var a

/-- The constants hold the geometry of the disk and the number of the boot drive. -/
structure Holds (drive : Byte) (mem : Memory) : Prop where
  BytesPerSector : word mem L.BytesPerSector.toNat = 512
  SectorsPerTrack : word mem L.SectorsPerTrack.toNat = 18
  Head : word mem L.Head.toNat = 2
  BOOT_DISK : mem L.BOOT_DISK.toNat = drive

variable {L}

theorem Holds.congr {drive : Byte} {mem mem' : Memory} (h : L.Holds drive mem)
    (heq : ∀ a, L.Const a → mem' a = mem a) : L.Holds drive mem' where
  BytesPerSector := (word_congr (heq _ (by simp [Const])) (heq _ (by simp [Const]))).trans
    h.BytesPerSector
  SectorsPerTrack := (word_congr (heq _ (by simp [Const])) (heq _ (by simp [Const]))).trans
    h.SectorsPerTrack
  Head := (word_congr (heq _ (by simp [Const])) (heq _ (by simp [Const]))).trans h.Head
  BOOT_DISK := (heq _ (by simp [Const])).trans h.BOOT_DISK

theorem Holds.storeByte {drive : Byte} {mem : Memory} (h : L.Holds drive mem) (hL : L.Apart)
    {a : ℕ} (ha : L.Var a) (b : Byte) : L.Holds drive (storeByte mem a b) :=
  h.congr fun c hc => storeByte_of_ne fun hca => hL.const c hc (hca ▸ ha)

end Labels

/-! ### Straight-line routines -/

section Straight

variable {L}

/-- The memory after `lbatochs` of a block. -/
def chsStored (L : Labels) (lba : ℕ) (mem : Memory) : Memory :=
  storeByte (storeByte (storeByte mem L._sector.toNat (BitVec.ofNat 8 (lba % 18 + 1)))
    L._head.toNat (BitVec.ofNat 8 (lba / 18 % 2))) L._cylinder.toNat (BitVec.ofNat 8 (lba / 36))

theorem low_ofNat (n : ℕ) : low (BitVec.ofNat 16 n) = BitVec.ofNat 8 n := by
  apply BitVec.eq_of_toNat_eq
  rw [toNat_low, BitVec.toNat_ofNat, BitVec.toNat_ofNat]
  omega

theorem lbatochs_eq {drive : Byte} (hL : L.Apart) {s : State} (hds : s.ds = 0)
    (hc : L.Holds drive s.mem) :
    lbatochs L s = some { s with
      ax := BitVec.ofNat 16 (s.ax.toNat / 36)
      dx := BitVec.ofNat 16 (s.ax.toNat / 18 % 2)
      mem := chsStored L s.ax.toNat s.mem } := by
  have hax := s.ax.isLt
  have hspt : ({ s with dx := 0 } : State).wordAt L.SectorsPerTrack = 18 := by
    rw [State.wordAt, hds, linear_zero]
    exact hc.SectorsPerTrack
  have hsector : low (BitVec.ofNat 16 (s.ax.toNat % 18)) + 1 =
      BitVec.ofNat 8 (s.ax.toNat % 18 + 1) := by
    rw [low_ofNat, BitVec.ofNat_add]
    rfl
  have hheads : word (storeByte s.mem L._sector.toNat (BitVec.ofNat 8 (s.ax.toNat % 18 + 1)))
      L.Head.toNat = 2 :=
    (hc.storeByte hL (Or.inr (Or.inr rfl)) _).Head
  have hquot : (BitVec.ofNat 16 (s.ax.toNat / 18)).toNat = s.ax.toNat / 18 := by
    rw [BitVec.toNat_ofNat]
    omega
  rw [lbatochs]
  simp only [Option.bind_eq_bind]
  rw [hspt, State.div_of_lt rfl (by decide), Option.bind_some]
  simp only [State.storeByteAt, State.wordAt, hds, linear_zero, low_setLow,
    BitVec.reduceToNat, hsector, hheads]
  rw [State.div_of_lt rfl (by decide), Option.bind_some]
  simp only [hquot, BitVec.reduceToNat, Nat.div_div_eq_div_mul, Nat.reduceMul, low_ofNat,
    linear_zero, chsStored]

/-- The entry of a cluster, in the table that starts at `FAT12_LOCATION`. -/
theorem getSectorValueOp_spec {s : State} (hds : s.ds = 0) (hax : s.ax.toNat ≤ 0xFEF) :
    ∃ t, getSectorValueOp s = some t ∧ s.SameFrame t ∧ t.mem = s.mem ∧
      t.ax.toNat = Fat12.entry (fun k => s.mem (FAT12_LOCATION.toNat + k)) s.ax.toNat := by
  have hoffset : (FAT12_LOCATION + (s.ax + s.ax >>> 1)).toNat =
      FAT12_LOCATION.toNat + 3 * s.ax.toNat / 2 := by
    have hlocation : FAT12_LOCATION.toNat = 0x7E00 := rfl
    have hhalf : s.ax.toNat + s.ax.toNat / 2 ^ 1 = 3 * s.ax.toNat / 2 := by omega
    rw [BitVec.toNat_add, BitVec.toNat_add, BitVec.toNat_ushiftRight,
      Nat.shiftRight_eq_div_pow, hhalf]
    omega
  have hword : (word s.mem (FAT12_LOCATION.toNat + 3 * s.ax.toNat / 2)).toNat =
      256 * (s.mem (FAT12_LOCATION.toNat + (3 * s.ax.toNat / 2 + 1))).toNat +
        (s.mem (FAT12_LOCATION.toNat + 3 * s.ax.toNat / 2)).toNat := toNat_append _ _
  have hodd : s.ax &&& 1 = 0 ↔ s.ax.toNat % 2 = 0 := by
    rw [← BitVec.toNat_inj, BitVec.toNat_and]
    exact Eq.congr_left (Nat.and_two_pow_sub_one_eq_mod _ 1)
  refine ⟨_, rfl, ?_, ?_, ?_⟩
  · constructor <;> dsimp only <;> split_ifs <;> rfl
  · dsimp only
    split_ifs <;> rfl
  · simp only [State.wordAt, hds, linear_zero, hoffset, hodd]
    rw [Fat12.entry, ← hword]
    split_ifs
    · rw [BitVec.toNat_and]
      exact Nat.and_two_pow_sub_one_eq_mod _ 12
    · rw [BitVec.toNat_ushiftRight, Nat.shiftRight_eq_div_pow]

end Straight

end B2OS.Boot
