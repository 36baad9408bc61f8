import B2OS.Boot.MemoryMap
import B2OS.Boot.NamedFile
import B2OS.Lib.ProtectedMode

/-!
# The Second Stage

The file `boot_second.asm`. It loads the kernel, prints two lines, stores the memory map, opens the
gate of the address line A20, and switches to protected mode, where it sets up flat segments and a
stack and jumps to the kernel.

The number of the drive is not handed on from the first stage: the second one has a number of its
own, which is zero. Interrupts are on when the kernel is entered, while the table of the interrupts
is still that of real mode.

## Main results

* `switchToKernel_spec`: the switch ends in the kernel, with flat segments.
* `secondStage_spec`: the second stage enters the kernel.
-/

namespace B2OS.Boot

open RealMode

/-- The labels of the second stage. -/
structure SecondLabels where
  file : FileLabels
  load_kernel_str : Word
  switch32_str : Word
  GDT_start : Word
  GDT_descriptor : Word
  Entry32Bit : Word
  afterPrintKernel : Word
  afterPrintSwitch : Word
  afterLoadMemoryMap : Word
  afterEnableA20line : Word
  afterSwitch32 : Word

def KERNEL_LOCATION : Word := 0xF000

/-- The selectors of the table. -/
def CODE_SEG : Word := 0x08

def DATA_SEG : Word := 0x10

/-! ### The routines -/

/-- A line that is printed: the lines between a `pusha` and its `popa`. -/
def logLine (int10 : State → State) (fuel : ℕ) (str ret si di : Word) (s : State) :
    Option State := do
  let s := s.pusha si di
  let si := str
  let s ← s.call ret (printStr int10 fuel si di)
  some s.popa

/-- Opens the gate of the address line. -/
def enableA20line (int15 : Wide → Wide) (w : Wide) : Wide :=
  let w := w.push (w.low.ebp.setWidth 16)
  let w := { w with low := { w.low with ebp := w.low.ebp.extractLsb' 16 16 ++ w.low.sp } }
  let w := { w with low := { w.low with ax := 0x2401 } }
  let w := int15 w
  -- `leave`
  let w := { w with low := { w.low with sp := w.low.ebp.setWidth 16 } }
  let bp := w.low.top
  { w.drop with low := { w.drop.low with ebp := w.low.ebp.extractLsb' 16 16 ++ bp } }

/-- `lgdt` with an operand of 16 bits, which takes 24 bits of the base. -/
def lgdt (s : State) (off : Word) : ProtectedMode.Gdtr where
  limit := s.wordAt off
  base := (0 : Byte) ++ s.byteAt (off + 4) ++ s.wordAt (off + 2)

/-- Sets the protection enable bit. -/
def switch32 (w : Wide) : Wide :=
  let w := w.setEax w.cr0
  let w := w.setEax (w.eax ||| 1)
  { w with cr0 := w.eax }

/-- The 32-bit code of the stage. A segment that is not flat is not followed. -/
def entry32Bit (gdtr : ProtectedMode.Gdtr) (c : ProtectedMode.State) :
    Option ProtectedMode.State := do
  let c := { c with eax := ProtectedMode.setLow c.eax DATA_SEG }
  let data ← ProtectedMode.descriptorAt c.mem gdtr (ProtectedMode.low c.eax)
  if data.Flat ∧ data.Data then
    let c := { c with ds := ProtectedMode.low c.eax }
    -- SS, which is not part of the state, is loaded here
    let c := { c with es := ProtectedMode.low c.eax }
    let c := { c with fs := ProtectedMode.low c.eax }
    let c := { c with gs := ProtectedMode.low c.eax }
    let c := { c with ebp := 0x90000 }
    let c := { c with esp := c.ebp }
    some { c with eip := KERNEL_LOCATION.setWidth 32 }
  else none

/-- The memory by its 32-bit address, with the address line A20. -/
def flatMemory (mem : Memory) : ByteMemory.Memory := fun a => mem a.toNat

/-- The far jump, when the protection enable bit is set. FS and GS have been zero since the start of
the first stage. -/
def jumpToEntry (S : SecondLabels) (gdtr : ProtectedMode.Gdtr) (w : Wide) :
    Option ProtectedMode.State := do
  let code ← ProtectedMode.descriptorAt (flatMemory w.low.mem) gdtr CODE_SEG
  if w.a20 ∧ w.cr0.getLsbD 0 ∧ code.Flat ∧ code.Code then
    entry32Bit gdtr
      { eax := w.eax, ecx := w.ecx, edx := w.edx, ebx := w.ebx, esp := w.low.esp, ebp := w.low.ebp
        esi := w.esi, edi := w.edi, eip := S.Entry32Bit.setWidth 32, eflags := w.eflags
        cs := CODE_SEG, ds := w.low.ds, es := w.low.es, fs := 0, gs := 0
        mem := flatMemory w.low.mem }
  else none

/-- The second stage from its first `cli` on. -/
def switchToKernel (S : SecondLabels) (w : Wide) : Option ProtectedMode.State := do
  let w := w.cli
  let gdtr := lgdt w.low S.GDT_descriptor
  let w := w.sti
  let w ← w.call S.afterSwitch32 (fun w => some (switch32 w))
  jumpToEntry S gdtr w

/-- The second stage. -/
def secondStage (S : SecondLabels) (int10 int13 : State → State) (int15 : Wide → Wide) (fuel : ℕ)
    (si di : Word) (w : Wide) : Option ProtectedMode.State := do
  let s ← loadNamed S.file int13 fuel KERNEL_LOCATION w.low
  let s ← logLine int10 fuel S.load_kernel_str S.afterPrintKernel si di s
  let s ← logLine int10 fuel S.switch32_str S.afterPrintSwitch si di s
  let s := { s with bx := 0 }
  let s := { s with es := s.bx }
  let s := { s with bx := MEMORY_MAP }
  let w := { w with low := s }
  let w := w.setDi w.low.bx
  let w ← w.call S.afterLoadMemoryMap (loadMemoryMap int15 fuel)
  let w ← w.call S.afterEnableA20line (fun w => some (enableA20line int15 w))
  switchToKernel S w

/-! ### The gate of the address line -/

/-- INT 15h, function 2401h, opens the gate. -/
def OpensA20 (int15 : Wide → Wide) (kept : Set ℕ) (stackLow : ℕ) : Prop :=
  ∀ w, w.low.ax = 0x2401 → Spared kept stackLow w.low (int15 w).low ∧ (int15 w).a20 = true

variable {int10 int13 : State → State} {int15 : Wide → Wide} {kept : Set ℕ}
  {stackLow stackTop : ℕ} {s : State} {w : Wide}

/-- The routine gives its frame back. -/
theorem enableA20line_spec (hopens : OpensA20 int15 kept stackLow)
    (hs : HasRoom kept stackLow stackTop 2 w.low) :
    Spared kept stackLow w.low (enableA20line int15 w).low ∧
      (enableA20line int15 w).a20 = true := by
  let bp : Word := w.low.ebp.setWidth 16
  let sp : Word := (w.low.push bp).sp
  let v : Wide := { w.push bp with low := { w.low.push bp with
    ebp := w.low.ebp.extractLsb' 16 16 ++ sp, ax := 0x2401 } }
  obtain ⟨⟨hframe, hmem⟩, ha20⟩ := hopens v rfl
  have hlow : (int15 v).low.ebp.setWidth 16 = sp := by
    rw [hframe.ebp]
    exact BitVec.setWidth_append_eq_right
  have hhigh : (int15 v).low.ebp.extractLsb' 16 16 = w.low.ebp.extractLsb' 16 16 := by
    rw [hframe.ebp]
    exact BitVec.extractLsb'_append_eq_left
  -- the state behind the interrupt, with the frame pointer of the caller
  have hspared : Spared kept stackLow (w.low.push bp) { (int15 v).low with ebp := w.low.ebp } :=
    ⟨⟨hframe.ds, hframe.es, hframe.ss, hframe.sp, hframe.espHigh, rfl⟩, hmem⟩
  have htop := hs.top_eq hspared
  change (int15 v).low.top = bp at htop
  have hrun : (enableA20line int15 w).low =
      ({ (int15 v).low with ebp := w.low.ebp } : State).drop := by
    have hleave : ({ (int15 v).low with sp := sp } : State) = (int15 v).low := by
      rw [show sp = (int15 v).low.sp from hframe.sp.symm]
    change ({ ({ (int15 v).low with sp := (int15 v).low.ebp.setWidth 16 } : State).drop with
      ebp := (int15 v).low.ebp.extractLsb' 16 16 ++
        ({ (int15 v).low with sp := (int15 v).low.ebp.setWidth 16 } : State).top } : State) = _
    rw [hlow, hleave, htop, hhigh, Wide.append_halves]
    rfl
  rw [hrun]
  exact ⟨hs.drop hspared, ha20⟩

/-- So does its call. -/
theorem call_enableA20line_spec (hopens : OpensA20 int15 kept stackLow)
    (hs : HasRoom kept stackLow stackTop 4 w.low) (ret : Word) :
    ∃ t, w.call ret (fun w => some (enableA20line int15 w)) = some t ∧
      Spared kept stackLow w.low t.low ∧ t.a20 = true := by
  obtain ⟨hspared, ha20⟩ := enableA20line_spec (w := w.push ret) hopens (hs.push ret)
  have hroom := hs.le (show 2 ≤ 4 by omega)
  exact ⟨_, Wide.call_eq_some rfl (hroom.top_eq hspared), hroom.drop hspared, ha20⟩

/-! ### The lines that are printed -/

/-- A line that is printed changes nothing but the stack below it. -/
theorem logLine_spec (hint : Prints int10 kept stackLow)
    (hs : HasRoom kept stackLow stackTop 34 s) (hds : s.ds = 0) {n fuel : ℕ} {str : Word}
    (hend : EndsAt kept stackLow stackTop str n s.mem) (hfuel : n < fuel) (ret si di : Word) :
    ∃ t, logLine int10 fuel str ret si di s = some t ∧ Spared kept stackLow s t := by
  -- the first stage prints its line in the same way
  let B : FirstLabels := ⟨str, 0, ret, 0⟩
  obtain ⟨t, ht⟩ := logFat_ends (B := B) hint hs hds hend hfuel si di
  exact ⟨t, ht, (logFat_spared hint hs ht).spared⟩

/-! ### The data of the stage -/

/-- The table of `gdt.asm`: nothing, the code segment and the data segment. -/
def GDT : List Byte :=
  [0x00, 0x00, 0x00, 0x00, 0x00, 0x00, 0x00, 0x00,
   0xFF, 0xFF, 0x00, 0x00, 0x00, 0x9A, 0xCF, 0x00,
   0xFF, 0xFF, 0x00, 0x00, 0x00, 0x92, 0xCF, 0x00]

/-- The name `KERNEL  BIN`. -/
def KERNELFILENAME : List Byte :=
  [0x4B, 0x45, 0x52, 0x4E, 0x45, 0x4C, 0x20, 0x20, 0x42, 0x49, 0x4E]

def BOOT2_LOCATION : Word := 0x7000

/-- The bytes of the stage that it reads and never writes; the two texts have their zeros at 13 and
at 22. -/
def SecondLabels.Fixed (S : SecondLabels) (a : ℕ) : Prop :=
  S.file.disk.Const a ∨ S.file.Data a ∨ a = S.load_kernel_str.toNat + 13 ∨
    a = S.switch32_str.toNat + 22 ∨ S.GDT_start.toNat ≤ a ∧ a < S.GDT_start.toNat + 24 ∨
    S.GDT_descriptor.toNat ≤ a ∧ a < S.GDT_descriptor.toNat + 5

/-- The memory has the data of the second stage, in the `length` sectors from `BOOT2_LOCATION`
on. -/
structure SecondData (S : SecondLabels) (length : ℕ) (mem : Memory) : Prop where
  apart : S.file.disk.Apart
  inside : ∀ a, S.Fixed a ∨ S.file.disk.Var a → a ∈ destination BOOT2_LOCATION length
  fixed : ∀ a, S.Fixed a → ¬ S.file.disk.Var a
  holds : S.file.Holds 0 KERNELFILENAME mem
  kernelText : mem (S.load_kernel_str.toNat + 13) = 0
  switchText : mem (S.switch32_str.toNat + 22) = 0
  gdt : ∀ i < 24, mem (S.GDT_start.toNat + i) = GDT.getD i 0
  limit : word mem S.GDT_descriptor.toNat = 23
  base : word mem (S.GDT_descriptor.toNat + 2) = S.GDT_start
  baseHigh : mem (S.GDT_descriptor.toNat + 4) = 0

section Data

variable {S : SecondLabels} {length : ℕ} {mem mem' : Memory}

theorem FileLabels.Holds.congr {F : FileLabels} {drive : Byte} {name : List Byte}
    (h : F.Holds drive name mem) (heq : ∀ a, F.disk.Const a ∨ F.Data a → mem' a = mem a) :
    F.Holds drive name mem' where
  disk := h.disk.congr fun a ha => heq a (Or.inl ha)
  FileAllocationTable := (heq _ (Or.inr (by simp [FileLabels.Data]))).trans h.FileAllocationTable
  SectorsPerFAT := (word_congr (heq _ (Or.inr (by simp [FileLabels.Data])))
    (heq _ (Or.inr (by simp [FileLabels.Data])))).trans h.SectorsPerFAT
  BytesPerSector := (word_congr (heq _ (Or.inr (by simp [FileLabels.Data])))
    (heq _ (Or.inr (by simp [FileLabels.Data])))).trans h.BytesPerSector
  filename i hi := (heq _ (Or.inr (Or.inl ⟨by omega, by omega⟩))).trans (h.filename i hi)

theorem fixed_gdt {i : ℕ} (hi : i < 24) : S.Fixed (S.GDT_start.toNat + i) :=
  Or.inr (Or.inr (Or.inr (Or.inr (Or.inl ⟨by omega, by omega⟩))))

theorem fixed_descriptor {i : ℕ} (hi : i < 5) : S.Fixed (S.GDT_descriptor.toNat + i) :=
  Or.inr (Or.inr (Or.inr (Or.inr (Or.inr ⟨by omega, by omega⟩))))

/-- What the stage never writes to is all that counts. -/
theorem SecondData.congr (h : SecondData S length mem) (heq : ∀ a, S.Fixed a → mem' a = mem a) :
    SecondData S length mem' where
  apart := h.apart
  inside := h.inside
  fixed := h.fixed
  holds := h.holds.congr fun a ha => heq a (ha.imp_right Or.inl)
  kernelText := (heq _ (by simp [SecondLabels.Fixed])).trans h.kernelText
  switchText := (heq _ (by simp [SecondLabels.Fixed])).trans h.switchText
  gdt i hi := (heq _ (fixed_gdt hi)).trans (h.gdt i hi)
  limit := (word_congr (heq _ (fixed_descriptor (i := 0) (by omega)))
    (heq _ (fixed_descriptor (i := 1) (by omega)))).trans h.limit
  base := (word_congr (heq _ (fixed_descriptor (i := 2) (by omega)))
    (heq _ (fixed_descriptor (i := 3) (by omega)))).trans h.base
  baseHigh := (heq _ (fixed_descriptor (i := 4) (by omega))).trans h.baseHigh

end Data

/-! ### The switch -/

/-- The registers with which the kernel is entered. -/
structure EnteredKernel (t : ProtectedMode.State) : Prop where
  eip : t.eip = 0xF000
  cs : t.cs = CODE_SEG
  ds : t.ds = DATA_SEG
  es : t.es = DATA_SEG
  fs : t.fs = DATA_SEG
  gs : t.gs = DATA_SEG
  esp : t.esp = 0x90000
  interrupts : t.eflags.getLsbD 9 = true

section Switch

variable {S : SecondLabels} {length : ℕ}

/-- The register holds the place of the table. -/
theorem lgdt_eq (h : SecondData S length s.mem) (hds : s.ds = 0)
    (hend : BOOT2_LOCATION.toNat + 512 * length ≤ 65536) :
    (lgdt s S.GDT_descriptor).limit = 23 ∧
      (lgdt s S.GDT_descriptor).base = S.GDT_start.setWidth 32 := by
  have hlast := (h.inside _ (Or.inl (fixed_descriptor (i := 4) (by omega)))).2
  have htwo : (S.GDT_descriptor + 2).toNat = S.GDT_descriptor.toNat + 2 := by
    rw [BitVec.toNat_add]
    simp only [BitVec.reduceToNat]
    omega
  have hfour : (S.GDT_descriptor + 4).toNat = S.GDT_descriptor.toNat + 4 := by
    rw [BitVec.toNat_add]
    simp only [BitVec.reduceToNat]
    omega
  have hstart := S.GDT_start.isLt
  have hhigh : ((0 : Byte) ++ (0 : Byte) : Word) = 0 := by decide
  simp only [lgdt, State.wordAt, State.byteAt, hds, linear_zero, htwo, hfour, h.limit, h.base,
    h.baseHigh, true_and]
  apply BitVec.eq_of_toNat_eq
  rw [hhigh, BitVec.toNat_append, BitVec.toNat_setWidth, Nat.mod_eq_of_lt (by omega)]
  exact Nat.zero_or _

/-- A descriptor of the table is the one of `gdt.asm`. -/
theorem descriptorAt_eq {gdtr : ProtectedMode.Gdtr} (h : SecondData S length s.mem)
    (hlimit : gdtr.limit = 23) (hbase : gdtr.base = S.GDT_start.setWidth 32) {selector : Word}
    (hsel : selector = CODE_SEG ∨ selector = DATA_SEG) :
    ProtectedMode.descriptorAt (flatMemory s.mem) gdtr selector =
      some (.decode fun j => GDT.getD (selector.toNat + j) 0) := by
  have hnot : ¬ (8 * (selector.toNat / 8) = 0 ∨ selector.getLsbD 2 = true ∨
      gdtr.limit.toNat < 8 * (selector.toNat / 8) + 7) := by
    rw [hlimit]
    obtain rfl | rfl := hsel <;> decide
  have hindex : 8 * (selector.toNat / 8) = selector.toNat := by
    obtain rfl | rfl := hsel <;> rfl
  have hle : selector.toNat ≤ 16 := by
    obtain rfl | rfl := hsel <;> decide
  rw [ProtectedMode.descriptorAt, if_neg hnot, hindex]
  refine congrArg some (ProtectedMode.Descriptor.decode_congr fun j hj => ?_)
  have haddr : (gdtr.base + BitVec.ofNat 32 (selector.toNat + j)).toNat =
      S.GDT_start.toNat + (selector.toNat + j) := by
    have hstart := S.GDT_start.isLt
    rw [hbase, BitVec.toNat_add, BitVec.toNat_setWidth, BitVec.toNat_ofNat]
    omega
  rw [flatMemory, haddr]
  exact h.gdt _ (by omega)

/-- **The switch to protected mode.** With the data of the stage in memory and the address line
open, it ends in the kernel, with the memory as it was but for a word below the stack. -/
theorem switchToKernel_spec (h : SecondData S length w.low.mem) (hds : w.low.ds = 0)
    (hend : BOOT2_LOCATION.toNat + 512 * length ≤ stackLow)
    (hs : HasRoom kept stackLow stackTop 2 w.low) (ha20 : w.a20 = true) :
    ∃ t, switchToKernel S w = some t ∧ EnteredKernel t ∧
      t.mem = flatMemory (w.low.push S.afterSwitch32).mem := by
  have hroom := hs.room
  have hsp := w.low.sp.isLt
  obtain ⟨hlimit, hbase⟩ := lgdt_eq h hds (by omega)
  let v : Wide := (switch32 (w.cli.sti.push S.afterSwitch32)).drop
  have hcall : w.cli.sti.call S.afterSwitch32 (fun w => some (switch32 w)) = some v :=
    Wide.call_eq_some rfl (State.top_push w.low S.afterSwitch32)
  have hdata : SecondData S length (w.low.push S.afterSwitch32).mem := h.congr fun a ha => by
    have hin := (h.inside a (Or.inl ha)).2
    exact State.push_mem_of_apart _ hs.ss (by omega) (by omega)
  have hcode := descriptorAt_eq (s := w.low.push S.afterSwitch32) hdata hlimit hbase
    (Or.inl rfl)
  have hdatum := descriptorAt_eq (s := w.low.push S.afterSwitch32) hdata hlimit hbase
    (Or.inr rfl)
  have hcr0 : v.cr0 = w.cr0 ||| 1 := by
    change (((w.cli.sti.push S.afterSwitch32).setEax w.cr0).setEax
      (((w.cli.sti.push S.afterSwitch32).setEax w.cr0).eax ||| 1)).eax = _
    rw [Wide.eax_setEax, Wide.eax_setEax]
  have henabled : v.cr0.getLsbD 0 = true := by
    rw [hcr0, BitVec.getLsbD_or]
    simp
  -- the two descriptors are flat
  have hcodeFlat : (ProtectedMode.Descriptor.decode fun j => GDT.getD (CODE_SEG.toNat + j) 0).Flat ∧
      (ProtectedMode.Descriptor.decode fun j => GDT.getD (CODE_SEG.toNat + j) 0).Code := by
    decide
  have hdataFlat : (ProtectedMode.Descriptor.decode fun j => GDT.getD (DATA_SEG.toNat + j) 0).Flat ∧
      (ProtectedMode.Descriptor.decode fun j => GDT.getD (DATA_SEG.toNat + j) 0).Data := by
    decide
  have hseg : ∀ v : BitVec 32, ProtectedMode.low (ProtectedMode.setLow v DATA_SEG) = DATA_SEG :=
    fun v => ProtectedMode.low_setLow v DATA_SEG
  have hmem : v.low.mem = (w.low.push S.afterSwitch32).mem := rfl
  rw [switchToKernel, Option.bind_eq_bind, hcall, Option.bind_some, jumpToEntry, hmem,
    show lgdt w.cli.low S.GDT_descriptor = lgdt w.low S.GDT_descriptor from rfl, hcode,
    Option.bind_eq_bind, Option.bind_some, if_pos ⟨ha20, henabled, hcodeFlat⟩, entry32Bit]
  simp only [hseg]
  rw [hdatum, Option.bind_eq_bind, Option.bind_some, if_pos hdataFlat]
  refine ⟨_, rfl, ⟨rfl, rfl, rfl, rfl, rfl, rfl, rfl, ?_⟩, rfl⟩
  change ((w.eflags &&& 0xFFFFFDFF) ||| 0x00000200).getLsbD 9 = true
  rw [BitVec.getLsbD_or]
  simp

end Switch

/-! ### The stage -/

/-- The memory of the loader: from the memory map to the end of the copied blocks, and the
kernel. -/
def bootMemory (length : ℕ) : Set ℕ :=
  Set.Ico MEMORY_MAP.toNat 0xBE00 ∪ destination KERNEL_LOCATION length

/-- The BIOS, as the loader relies on it: it prints, reads the sectors of the first drive, reports a
map of `n` ranges, opens the gate of the address line, and leaves alone what is kept. -/
structure Bios (int10 int13 : State → State) (int15 : Wide → Wide) (disk : ℕ → ℕ → Byte)
    (range : ℕ → List Byte) (n : ℕ) (kept : Set ℕ) (stackLow : ℕ) : Prop where
  prints : Prints int10 kept stackLow
  resets : Resets int13 kept stackLow
  delivers : ∀ lba < TotalSector, Delivers int13 disk 0 kept stackLow lba
  reports : ReportsMap int15 range n kept stackLow
  opens : OpensA20 int15 kept stackLow

/-- What the sizes of the files and of the map have to leave: `first` sectors of the second stage
below the stack, the map below the second stage, and the kernel of `second` sectors below 1 MiB. -/
structure Fits (first second n stackLow : ℕ) : Prop where
  stage : BOOT2_LOCATION.toNat + 512 * first ≤ stackLow
  stack : stackLow + 64 ≤ 0x7C00
  map : MEMORY_MAP.toNat + 24 * (n + 1) ≤ BOOT2_LOCATION.toNat
  kernel : KERNEL_LOCATION.toNat + 512 * second ≤ 2 ^ 20

/-- The kernel is entered: its file is in memory, and so is the memory map. -/
structure AtKernel (disk : ℕ → ℕ → Byte) (start length : ℕ) (range : ℕ → List Byte) (n : ℕ)
    (t : ProtectedMode.State) : Prop where
  entered : EnteredKernel t
  kernel : ∀ i < 512 * length,
    t.mem (0xF000 + BitVec.ofNat 32 i) = fileByte disk start i
  count : ByteMemory.load32 t.mem 0x5C00 = BitVec.ofNat 32 n
  ranges : ∀ k < n, ∀ j < (range k).length,
    t.mem (0x5C00 + BitVec.ofNat 32 (24 * (k + 1) + j)) = (range k).getD j 0

/-- A BIOS that keeps more keeps less. -/
theorem Delivers.mono {disk : ℕ → ℕ → Byte} {drive : Byte} {kept' : Set ℕ} {lba : ℕ}
    (h : Delivers int13 disk drive kept stackLow lba) (hsub : kept' ⊆ kept) :
    Delivers int13 disk drive kept' stackLow lba := fun s hax hdx haddr hbx => by
  obtain ⟨hcarry, hframe, hsector, hkept⟩ := h s hax hdx haddr hbx
  exact ⟨hcarry, hframe, hsector, fun a ha => hkept a (hsub ha)⟩

section Stage

variable {S : SecondLabels} {disk : ℕ → ℕ → Byte} {range : ℕ → List Byte}
  {first second n start : ℕ}

theorem toNat_locations : MEMORY_MAP.toNat = 0x5C00 ∧ BOOT2_LOCATION.toNat = 0x7000 ∧
    FAT12_LOCATION.toNat = 0x7E00 ∧ KERNEL_LOCATION.toNat = 0xF000 := by decide

theorem disjoint_Ico {lo hi lo' hi' : ℕ} (h : hi ≤ lo' ∨ hi' ≤ lo) :
    Disjoint (Set.Ico lo hi) (Set.Ico lo' hi') :=
  Set.disjoint_left.mpr fun a ha ha' => by
    rw [Set.mem_Ico] at ha ha'
    omega

/-- The second stage, the copied blocks, the stack and the kernel are apart. -/
theorem secondRegions {mem : Memory} (hfits : Fits first second n stackLow)
    (hdata : SecondData S first mem) :
    Regions S.file.disk (destination BOOT2_LOCATION first) stackLow 0x7C00 KERNEL_LOCATION
      second := by
  obtain ⟨hmap, hboot, hfat, hkernel⟩ := toNat_locations
  obtain ⟨hstage, hstack, -, hsize⟩ := hfits
  refine ⟨hdata.apart, fun a ha => hdata.inside a (ha.imp_left Or.inl),
    disjoint_Ico (Or.inl (by omega)), disjoint_Ico (Or.inl (by omega)),
    disjoint_Ico (Or.inr (by omega)), by decide, by decide, hsize, ?_⟩
  rw [Set.disjoint_union_right, Set.disjoint_union_right]
  exact ⟨⟨disjoint_Ico (Or.inr (by omega)), disjoint_Ico (Or.inr (by omega))⟩,
    disjoint_Ico (Or.inr (by omega))⟩

theorem usedMemory_subset (hfits : Fits first second n stackLow) :
    usedMemory (destination BOOT2_LOCATION first) stackLow 0x7C00 KERNEL_LOCATION second ⊆
      bootMemory second := by
  obtain ⟨hmap, hboot, hfat, hkernel⟩ := toNat_locations
  obtain ⟨hstage, hstack, -, -⟩ := hfits
  rintro a (((ha | ha) | ha) | ha)
  · left
    rw [destination, Set.mem_Ico] at ha
    rw [Set.mem_Ico]
    omega
  · left
    rw [fatCopy, Set.mem_Ico] at ha
    rw [Set.mem_Ico]
    omega
  · left
    rw [Set.mem_Ico] at ha ⊢
    omega
  · exact Or.inr ha

/-- Once the kernel is loaded: the data of the stage and the kernel are in memory, and there is a
stack. -/
structure SecondReady (S : SecondLabels) (first : ℕ) (disk : ℕ → ℕ → Byte) (start second : ℕ)
    (stackLow : ℕ) (s : State) : Prop where
  ds : s.ds = 0
  room : HasRoom (bootMemory second) stackLow 0x7C00 34 s
  data : SecondData S first s.mem
  kernel : ∀ i < 512 * second, s.mem (KERNEL_LOCATION.toNat + i) = fileByte disk start i

/-- What lies below the stack or above it, and not in the map, is enough. -/
theorem SecondReady.congr {t : State} (hfits : Fits first second n stackLow)
    (h : SecondReady S first disk start second stackLow s) (hds : t.ds = s.ds) (hss : t.ss = s.ss)
    (hsp : t.sp = s.sp) (hmem : ∀ a ∈ bootMemory second, a ∉ mapBuffer MEMORY_MAP n →
      a < stackLow ∨ s.sp.toNat ≤ a → t.mem a = s.mem a) :
    SecondReady S first disk start second stackLow t := by
  obtain ⟨hmap, hboot, hfat, hkernel⟩ := toNat_locations
  obtain ⟨hstage, hstack, hbelow, -⟩ := hfits
  have htop := h.room.top
  refine ⟨hds.trans h.ds, ⟨hss.trans h.room.ss, ?_, ?_, h.room.kept⟩, h.data.congr fun a ha => ?_,
    fun i hi => ?_⟩
  · rw [hsp]
    exact h.room.room
  · rw [hsp]
    exact htop
  · have hin := h.data.inside a (Or.inl ha)
    rw [destination, Set.mem_Ico] at hin
    refine hmem a (Or.inl ?_) (fun hbuf => ?_) (Or.inl (by omega))
    · rw [Set.mem_Ico]
      omega
    · rw [mapBuffer, Set.mem_Ico] at hbuf
      omega
  · rw [hmem _ (Or.inr ?_) (fun hbuf => ?_) (Or.inr (by omega))]
    · exact h.kernel i hi
    · rw [destination, Set.mem_Ico]
      omega
    · rw [mapBuffer, Set.mem_Ico] at hbuf
      omega

theorem SecondReady.of_spared {t : State} (hfits : Fits first second n stackLow)
    (h : SecondReady S first disk start second stackLow s)
    (hs : Spared (bootMemory second) stackLow s t) :
    SecondReady S first disk start second stackLow t :=
  h.congr hfits hs.frame.ds hs.frame.ss hs.frame.sp fun a ha _ hout => hs.mem a ha (by
    rw [h.room.ss, linear_zero]
    exact hout)

/-- A line of the second stage is printed. -/
theorem SecondReady.log {fuel k : ℕ} (str ret si di : Word) (hfits : Fits first second n stackLow)
    (h : SecondReady S first disk start second stackLow s)
    (hint : Prints int10 (bootMemory second) stackLow) (hin : S.Fixed (str.toNat + k))
    (hzero : s.mem (str.toNat + k) = 0) (hfuel : k < fuel) :
    ∃ t, logLine int10 fuel str ret si di s = some t ∧
      SecondReady S first disk start second stackLow t := by
  obtain ⟨hmap, hboot, hfat, hkernel⟩ := toNat_locations
  have hinside := h.data.inside _ (Or.inl hin)
  rw [destination, Set.mem_Ico] at hinside
  have hstage := hfits.stage
  have hstack := hfits.stack
  have hend : EndsAt (bootMemory second) stackLow 0x7C00 str k s.mem := by
    refine ⟨by omega, hzero, Or.inl ?_, Or.inl (by omega)⟩
    rw [Set.mem_Ico]
    omega
  obtain ⟨t, hrun, hspared⟩ := logLine_spec hint h.room h.ds hend hfuel ret si di
  exact ⟨t, hrun, h.of_spared hfits hspared⟩

/-- The kernel is loaded. -/
theorem secondStage_loads {fuel : ℕ} (hfits : Fits first second n stackLow)
    (hbios : Bios int10 int13 int15 disk range n (bootMemory second) stackLow)
    (hds : s.ds = 0) (hss : s.ss = 0) (hsp : s.sp = 0x7C00) (hhigh : s.espHigh = 0)
    (hcopy : ∀ i < 512 * 32, s.mem (FAT12_LOCATION.toNat + i) = copiedByte disk i)
    (hdata : SecondData S first s.mem) (hfile : FileOn disk KERNELFILENAME start second)
    (hfuel : second ≤ fuel) :
    ∃ t, loadNamed S.file int13 fuel KERNEL_LOCATION s = some t ∧
      SecondReady S first disk start second stackLow t := by
  have hspNat : s.sp.toNat = 0x7C00 := congrArg BitVec.toNat hsp
  obtain ⟨hmap, hboot, hfat, hkernel⟩ := toNat_locations
  obtain ⟨hstage, hstack, hbelow, hsize⟩ := id hfits
  have hregions := secondRegions hfits hdata
  rw [← hspNat] at hregions
  have hload : CanLoadNamed S.file disk 0 KERNELFILENAME (destination BOOT2_LOCATION first) stackLow
      KERNEL_LOCATION second s := by
    refine ⟨hds, hss, hhigh, hdata.holds, hcopy, by omega, hregions,
      fun a ha => hdata.inside a (Or.inl (Or.inr (Or.inl ha))), ?_⟩
    have hlast := hdata.inside (S.file.filename.toNat + 10)
      (Or.inl (Or.inr (Or.inl (Or.inl ⟨by omega, by omega⟩))))
    rw [destination, Set.mem_Ico] at hlast
    omega
  have hsub := usedMemory_subset hfits
  rw [← hspNat] at hsub
  obtain ⟨t, hrun, htds, htss, htsp, -, himage, hkept⟩ := loadNamed_spec hload hfile
    (fun lba hlba => (hbios.delivers lba hlba).mono hsub) hfuel
  refine ⟨t, hrun, htds, ⟨htss, ?_, ?_, fun a hlo hhi => Or.inl ?_⟩, hdata.congr fun a ha => ?_,
    himage⟩
  · rw [htsp]
    omega
  · rw [htsp]
    omega
  · rw [Set.mem_Ico]
    omega
  · have hin := hdata.inside a (Or.inl ha)
    refine hkept a (Or.inl (Or.inl (Or.inl hin))) (hdata.fixed a ha) (fun hdest => ?_) (Or.inl ?_)
    · exact Set.disjoint_left.mp hregions.destination_free hdest (Or.inl (Or.inl hin))
    · rw [destination, Set.mem_Ico] at hin
      omega

/-- The memory map is stored, too. -/
structure MapReady (range : ℕ → List Byte) (n : ℕ) (mem : Memory) : Prop where
  count : dword mem MEMORY_MAP.toNat = BitVec.ofNat 32 n
  ranges : ∀ k < n, ∀ j < (range k).length,
    mem (MEMORY_MAP.toNat + 24 * (k + 1) + j) = (range k).getD j 0

theorem MapReady.congr {mem mem' : Memory} (h : MapReady range n mem)
    (hsize : ∀ k < n, (range k).length ≤ 24)
    (heq : ∀ a ∈ mapBuffer MEMORY_MAP n, mem' a = mem a) : MapReady range n mem' := by
  have hword : ∀ i < 4, mem' (MEMORY_MAP.toNat + i) = mem (MEMORY_MAP.toNat + i) := fun i hi =>
    heq _ (by rw [mapBuffer, Set.mem_Ico]; omega)
  have hfirst := hword 0 (by omega)
  rw [Nat.add_zero] at hfirst
  refine ⟨?_, fun k hk j hj => ?_⟩
  · rw [dword, word_congr (hword 2 (by omega)) (hword 3 (by omega)),
      word_congr hfirst (hword 1 (by omega))]
    exact h.count
  · have hlength := hsize k hk
    rw [heq _ (by rw [mapBuffer, Set.mem_Ico]; omega)]
    exact h.ranges k hk j hj

/-- From the two lines on: the map is stored, and the address line is open. -/
theorem secondStage_maps {fuel : ℕ} (hfits : Fits first second n stackLow)
    (hbios : Bios int10 int13 int15 disk range n (bootMemory second) stackLow)
    (hs : SecondReady S first disk start second stackLow w.low) (hes : w.low.es = 0)
    (hdi : w.di = MEMORY_MAP) (hfuel : n ≤ fuel) :
    ∃ u t, w.call S.afterLoadMemoryMap (loadMemoryMap int15 fuel) = some u ∧
      u.call S.afterEnableA20line (fun w => some (enableA20line int15 w)) = some t ∧
      SecondReady S first disk start second stackLow t.low ∧ MapReady range n t.low.mem ∧
      t.a20 = true := by
  obtain ⟨hmap, hboot, hfat, hkernel⟩ := toNat_locations
  obtain ⟨hstage, hstack, hbelow, -⟩ := id hfits
  have hroom := hs.room.room
  have hbuffer : ∀ a ∈ mapBuffer MEMORY_MAP n, a ∈ bootMemory second ∧ a < stackLow := by
    intro a ha
    rw [mapBuffer, Set.mem_Ico] at ha
    refine ⟨Or.inl ?_, by omega⟩
    rw [Set.mem_Ico]
    omega
  have hplace : MapPlace (bootMemory second) stackLow 0x7C00 w.di n := by
    rw [hdi]
    exact ⟨hs.room.kept, fun a ha => (hbuffer a ha).1, by omega, by omega⟩
  obtain ⟨u, hrun, hframe, hcount, hranges, hkept⟩ := call_loadMemoryMap_spec S.afterLoadMemoryMap
    hplace hs.ds hes hs.room.ss (by omega) hs.room.top hbios.reports hfuel
  rw [hdi] at hcount hranges hkept
  have hu : SecondReady S first disk start second stackLow u.low :=
    hs.congr hfits hframe.ds hframe.ss hframe.sp hkept
  obtain ⟨t, hcall, hspared, ha20⟩ := call_enableA20line_spec hbios.opens
    (hu.room.le (show 4 ≤ 34 by omega)) S.afterEnableA20line
  refine ⟨u, t, hrun, hcall, hu.of_spared hfits hspared, ?_, ha20⟩
  refine MapReady.congr ⟨hcount, hranges⟩ hbios.reports.size fun a ha => ?_
  obtain ⟨hin, hlow⟩ := hbuffer a ha
  exact hspared.mem a hin (Or.inl hlow)

/-- A double word of the flat memory. -/
theorem load32_flatMemory (mem : Memory) {a : BitVec 32} (ha : a.toNat + 3 < 2 ^ 32) :
    ByteMemory.load32 (flatMemory mem) a = dword mem a.toNat := by
  have hbyte : ∀ i < 4, flatMemory mem (a + BitVec.ofNat 32 i) = mem (a.toNat + i) := fun i hi => by
    rw [flatMemory, BitVec.toNat_add, BitVec.toNat_ofNat]
    congr 1
    omega
  have h0 : flatMemory mem a = mem a.toNat := rfl
  have h1 : flatMemory mem (a + 1) = mem (a.toNat + 1) := hbyte 1 (by omega)
  have h2 : flatMemory mem (a + 2) = mem (a.toNat + 2) := hbyte 2 (by omega)
  have h3 : flatMemory mem (a + 3) = mem (a.toNat + 3) := hbyte 3 (by omega)
  have hlow := toNat_append (mem (a.toNat + 1)) (mem a.toNat)
  have hhigh := toNat_append (mem (a.toNat + 3)) (mem (a.toNat + 2))
  have hlt := (word mem a.toNat).isLt
  have hlt' := (word mem (a.toNat + 2)).isLt
  apply BitVec.eq_of_toNat_eq
  rw [ByteMemory.load32, h0, h1, h2, h3, dword, BitVec.toNat_append,
    ← Nat.shiftLeft_add_eq_or_of_lt hlt, Nat.shiftLeft_eq, BitVec.toNat_ofNat]
  rw [word] at hlt hlt' ⊢
  rw [word, hlow, hhigh]
  rw [hlow] at hlt
  rw [hhigh] at hlt'
  omega

/-- **The second stage enters the kernel.** -/
theorem secondStage_spec {fuel : ℕ} (si di : Word) (hfits : Fits first second n stackLow)
    (hbios : Bios int10 int13 int15 disk range n (bootMemory second) stackLow)
    (hds : w.low.ds = 0) (hss : w.low.ss = 0) (hsp : w.low.sp = 0x7C00) (hhigh : w.low.espHigh = 0)
    (hcopy : ∀ i < 512 * 32, w.low.mem (FAT12_LOCATION.toNat + i) = copiedByte disk i)
    (hdata : SecondData S first w.low.mem) (hfile : FileOn disk KERNELFILENAME start second)
    (hfuel : second + n + 22 < fuel) :
    ∃ t, secondStage S int10 int13 int15 fuel si di w = some t ∧
      AtKernel disk start second range n t := by
  obtain ⟨hmap, hboot, hfat, hkernel⟩ := toNat_locations
  obtain ⟨s₁, hload, h₁⟩ := secondStage_loads hfits hbios hds hss hsp hhigh hcopy hdata hfile
    (show second ≤ fuel by omega)
  obtain ⟨s₂, hlog, h₂⟩ := SecondReady.log S.load_kernel_str S.afterPrintKernel si di hfits h₁
    hbios.prints (k := 13) (by simp [SecondLabels.Fixed]) h₁.data.kernelText
    (show 13 < fuel by omega)
  obtain ⟨s₃, hlog', h₃⟩ := SecondReady.log S.switch32_str S.afterPrintSwitch si di hfits h₂
    hbios.prints (k := 22) (by simp [SecondLabels.Fixed]) h₂.data.switchText
    (show 22 < fuel by omega)
  let v : Wide := ({ w with low := { s₃ with bx := MEMORY_MAP, es := 0 } } : Wide).setDi MEMORY_MAP
  have hv : SecondReady S first disk start second stackLow v.low :=
    h₃.congr (n := n) hfits rfl rfl rfl fun _ _ _ _ => rfl
  obtain ⟨u, x, hmaps, hopen, hx, hrange, ha20⟩ := secondStage_maps hfits hbios hv rfl
    (Wide.di_setDi _ MEMORY_MAP) (show n ≤ fuel by omega)
  obtain ⟨t, hswitch, hentered, hmem⟩ := switchToKernel_spec hx.data hx.ds hfits.stage
    (hx.room.le (show 2 ≤ 34 by omega)) ha20
  -- the last word that is pushed lies in the stack
  have hroom := hx.room.room
  have htop := hx.room.top
  have hstage := hfits.stage
  have hbelow := hfits.map
  have hkernelEnd := hfits.kernel
  have hpush : ∀ a, a < stackLow ∨ 0x7C00 ≤ a →
      (x.low.push S.afterSwitch32).mem a = x.low.mem a := fun a ha =>
    State.push_mem_of_apart _ hx.room.ss (by omega) (by omega)
  have hlast : MapReady range n (x.low.push S.afterSwitch32).mem :=
    hrange.congr hbios.reports.size fun a ha => by
      rw [mapBuffer, Set.mem_Ico] at ha
      exact hpush a (by omega)
  refine ⟨t, ?_, hentered, fun i hi => ?_, ?_, fun k hk j hj => ?_⟩
  · simp only [secondStage, Option.bind_eq_bind]
    rw [hload, Option.bind_some, hlog, Option.bind_some, hlog', Option.bind_some]
    exact (congrArg (Option.bind · _) hmaps).trans
      ((congrArg (Option.bind · _) hopen).trans hswitch)
  · have haddr : ((0xF000 : BitVec 32) + BitVec.ofNat 32 i).toNat = KERNEL_LOCATION.toNat + i := by
      rw [BitVec.toNat_add, BitVec.toNat_ofNat]
      simp only [BitVec.reduceToNat]
      omega
    rw [hmem, flatMemory, haddr, hpush _ (by omega)]
    exact hx.kernel i hi
  · rw [hmem, load32_flatMemory _ (by decide)]
    exact hlast.count
  · have hlength := hbios.reports.size k hk
    have haddr : ((0x5C00 : BitVec 32) + BitVec.ofNat 32 (24 * (k + 1) + j)).toNat =
        MEMORY_MAP.toNat + 24 * (k + 1) + j := by
      rw [BitVec.toNat_add, BitVec.toNat_ofNat]
      simp only [BitVec.reduceToNat]
      omega
    rw [hmem, flatMemory, haddr]
    exact hlast.ranges k hk j hj

end Stage

end B2OS.Boot
