import B2OS.Boot.SecondStage

/-!
# The Boot Loader

Both stages one after the other, from where the BIOS jumps to the boot sector to where the kernel
is entered: the first stage copies the FAT and the root directory and loads `BOOT2.BIN`, the second
one, which is this file, loads `KERNEL.BIN` and switches to protected mode.

The second stage looks up the kernel in the copy that the first one has made, and reads it from the
first drive, whatever drive the first stage was read from.

## Main results

* `firstStage_loads`: the first stage ends with `BOOT2.BIN` at the address it jumps to.
* `boot_enters_kernel`: the loader enters the kernel of the disk.
-/

namespace B2OS.Boot

open RealMode Fat12

/-- The loader, from the start of the boot sector in segment 0. The upper halves of the registers
are those of the start: no routine uses one that it has not loaded. -/
def boot (B : FirstLabels) (F : FileLabels) (S : SecondLabels) (int10 int13 : State → State)
    (int15 : Wide → Wide) (fuel : ℕ) (si di : Word) (w : Wide) : Option ProtectedMode.State := do
  let (s, _) ← bootFirst F.disk B int10 int13 fuel 0 si di w.low
  let s ← loadNamed F int13 fuel BOOT2_LOCATION s
  -- `jmp BOOT2_LOCATION`
  secondStage S int10 int13 int15 fuel si di { w with low := s }

/-- The memory of the boot sector. -/
def bootSector : Set ℕ := Set.Ico 0x7C00 0x7E00

/-- The boot sector: the data that the first stage uses, and those of the search, which it never
writes to. -/
structure FirstStage (B : FirstLabels) (F : FileLabels) (kept : Set ℕ) (stackLow : ℕ)
    (mem : Memory) : Prop where
  sector : BootSector F.disk B kept stackLow mem
  data : ∀ a, F.disk.Const a ∨ F.disk.Var a ∨ F.Data a → a ∈ bootSector
  fixed : ∀ a, F.Data a → ¬ F.disk.Var a ∧ a ≠ F.disk.BOOT_DISK.toNat
  FileAllocationTable : mem F.search.FileAllocationTable.toNat = 2
  SectorsPerFAT : word mem F.search.SectorsPerFAT.toNat = 9
  BytesPerSector : word mem F.search.BytesPerSector.toNat = 512
  filename : ∀ i < 11, mem (F.filename.toNat + i) = BOOT2FILENAME.getD i 0

/-- A file in the memory from `BOOT2_LOCATION` on. -/
def stageImage (byte : ℕ → Byte) : Memory := fun a => byte (a - BOOT2_LOCATION.toNat)

variable {B : FirstLabels} {F : FileLabels} {S : SecondLabels} {int10 int13 : State → State}
  {int15 : Wide → Wide} {disk : ℕ → ℕ → Byte} {range : ℕ → List Byte}
  {first second n stackLow start : ℕ} {s : State} {w : Wide}

/-! ### The first stage -/

/-- The boot sector, the copied blocks, the stack and the second stage are apart. -/
theorem firstRegions {kept : Set ℕ} {mem : Memory} (hfits : Fits first second n stackLow)
    (h : FirstStage B F kept stackLow mem) :
    Regions F.disk bootSector stackLow 0x7C00 BOOT2_LOCATION first := by
  obtain ⟨hmap, hboot, hfat, hkernel⟩ := toNat_locations
  obtain ⟨hstage, hstack, -, -⟩ := hfits
  refine ⟨h.sector.placed.apart, fun a ha => h.data a (ha.imp_right Or.inl),
    disjoint_Ico (Or.inl (by omega)), disjoint_Ico (Or.inr (by omega)),
    disjoint_Ico (Or.inr (by omega)), by decide, by decide, by omega, ?_⟩
  rw [Set.disjoint_union_right, Set.disjoint_union_right]
  exact ⟨⟨disjoint_Ico (Or.inl (by omega)), disjoint_Ico (Or.inl (by omega))⟩,
    disjoint_Ico (Or.inl (by omega))⟩

theorem firstMemory_subset (hfits : Fits first second n stackLow) :
    usedMemory bootSector stackLow 0x7C00 BOOT2_LOCATION first ⊆
      bootMemory second := by
  obtain ⟨hmap, hboot, hfat, hkernel⟩ := toNat_locations
  obtain ⟨hstage, hstack, hbelow, -⟩ := hfits
  intro a ha
  left
  rw [Set.mem_Ico]
  rcases ha with ((ha | ha) | ha) | ha
  · rw [bootSector, Set.mem_Ico] at ha
    omega
  · rw [fatCopy, Set.mem_Ico] at ha
    omega
  · rw [Set.mem_Ico] at ha
    omega
  · rw [destination, Set.mem_Ico] at ha
    omega

/-- What the second stage finds: the copy of the blocks, and its own file at the address that the
first stage jumps to. -/
structure AtSecondStage (disk : ℕ → ℕ → Byte) (start first : ℕ) (s : State) : Prop where
  ds : s.ds = 0
  ss : s.ss = 0
  sp : s.sp = 0x7C00
  espHigh : s.espHigh = 0
  copy : ∀ i < 512 * 32, s.mem (FAT12_LOCATION.toNat + i) = copiedByte disk i
  image : ∀ i < 512 * first, s.mem (BOOT2_LOCATION.toNat + i) = fileByte disk start i

/-- The data of the boot sector are in place behind the copy. -/
theorem FatCopied.canLoad {t : State} (hfits : Fits first second n stackLow)
    (hfirst : FirstStage B F (bootMemory second) stackLow s.mem) (hdl : low s.dx = 0)
    (ht : FatCopied F.disk disk (bootMemory second) stackLow s t) :
    CanLoadNamed F disk 0 BOOT2FILENAME bootSector stackLow BOOT2_LOCATION first t := by
  obtain ⟨hmap, hboot, hfat, hkernel⟩ := toNat_locations
  have hspNat : t.sp.toNat = 0x7C00 := congrArg BitVec.toNat ht.sp
  have hstack := hfits.stack
  have hsame : ∀ a, F.Data a → t.mem a = s.mem a := fun a ha => by
    have hin := hfirst.data a (Or.inr (Or.inr ha))
    obtain ⟨hvar, hne⟩ := hfirst.fixed a ha
    rw [bootSector, Set.mem_Ico] at hin
    refine ht.mem a (Or.inl ?_) hvar hne (by omega) (Or.inr hin.1)
    rw [Set.mem_Ico]
    omega
  have hregions := firstRegions hfits hfirst
  rw [← hspNat] at hregions
  refine ⟨ht.ds, ht.ss, ht.espHigh, ⟨?_, ?_, ?_, ?_, fun i hi => ?_⟩, ht.copy, by omega, hregions,
    fun a ha => hfirst.data a (Or.inr (Or.inr ha)), ?_⟩
  · rw [← hdl]
    exact ht.holds
  · exact (hsame _ (by simp [FileLabels.Data])).trans hfirst.FileAllocationTable
  · exact (word_congr (hsame _ (by simp [FileLabels.Data]))
      (hsame _ (by simp [FileLabels.Data]))).trans hfirst.SectorsPerFAT
  · exact (word_congr (hsame _ (by simp [FileLabels.Data]))
      (hsame _ (by simp [FileLabels.Data]))).trans hfirst.BytesPerSector
  · exact (hsame _ (Or.inl ⟨by omega, by omega⟩)).trans (hfirst.filename i hi)
  · have hlast := hfirst.data (F.filename.toNat + 10)
      (Or.inr (Or.inr (Or.inl ⟨by omega, by omega⟩)))
    rw [bootSector, Set.mem_Ico] at hlast
    omega

/-- The first stage ends with the second one at the address that it jumps to. -/
theorem firstStage_loads (hfits : Fits first second n stackLow)
    (hbios : Bios int10 int13 int15 disk range n (bootMemory second) stackLow)
    (hfirst : FirstStage B F (bootMemory second) stackLow s.mem) (hdl : low s.dx = 0)
    (hch : high s.cx = 0) (hfile : FileOn disk BOOT2FILENAME start first) (si di : Word) :
    ∃ m, ∀ fuel ≥ m, ∃ t log u, bootFirst F.disk B int10 int13 fuel 0 si di s = some (t, log) ∧
      loadNamed F int13 fuel BOOT2_LOCATION t = some u ∧ AtSecondStage disk start first u := by
  obtain ⟨hmap, hboot, hfat, hkernel⟩ := toNat_locations
  obtain ⟨hstage, hstack, hbelow, -⟩ := id hfits
  have hcopied : fatCopy ⊆ bootMemory second := fun a ha => by
    left
    rw [fatCopy, Set.mem_Ico] at ha
    rw [Set.mem_Ico]
    omega
  have hvar : ∀ a, F.disk.Var a → a < FAT12_LOCATION.toNat := fun a ha => by
    have hin := hfirst.data a (Or.inr (Or.inl ha))
    rw [bootSector, Set.mem_Ico] at hin
    omega
  obtain ⟨m, hm⟩ := bootFirst_copies hfirst.sector hcopied hvar hbios.prints hbios.resets
    (fun k hk => by
      rw [hdl]
      exact hbios.delivers _ (by rw [TotalSector]; omega))
    hch si di
  refine ⟨m + first, fun fuel hfuel => ?_⟩
  obtain ⟨t, log, hrun, ht⟩ := hm fuel (by omega)
  have hspNat : t.sp.toNat = 0x7C00 := congrArg BitVec.toNat ht.sp
  have hload := ht.canLoad hfits hfirst hdl
  have hsub := firstMemory_subset hfits
  have hregions := firstRegions hfits hfirst
  rw [← hspNat] at hsub hregions
  obtain ⟨u, hload, hds, hss, husp, hhigh, himage, hkept⟩ := loadNamed_spec hload hfile
    (fun lba hlba => (hbios.delivers lba hlba).mono hsub) (show first ≤ fuel by omega)
  refine ⟨t, log, u, hrun, hload, hds, hss, husp.trans ht.sp, hhigh, fun i hi => ?_, himage⟩
  have hin : FAT12_LOCATION.toNat + i ∈ fatCopy := by
    rw [fatCopy, Set.mem_Ico]
    omega
  obtain ⟨hused, hnot, hdest, hout⟩ := hregions.fat_kept hin
  rw [hkept _ hused hnot hdest hout]
  exact ht.copy i hi

/-! ### Both stages -/

/-- **The boot loader enters the kernel.** The BIOS has loaded the boot sector of a disk and jumped
to it, with zero in CH. If the disk has a file `BOOT2.BIN` with the data of the second stage, and a
file `KERNEL.BIN`, of any length and fragmentation for which there is room, then the kernel is
entered in protected mode: its file lies at the entry, the ranges that the BIOS reports lie behind
their number, and all segments are flat. -/
theorem boot_enters_kernel {boot2 kernel : ℕ} (hfits : Fits first second n stackLow)
    (hbios : Bios int10 int13 int15 disk range n (bootMemory second) stackLow)
    (hfirst : FirstStage B F (bootMemory second) stackLow w.low.mem) (hdl : low w.low.dx = 0)
    (hch : high w.low.cx = 0) (hboot2 : FileOn disk BOOT2FILENAME boot2 first)
    (hsecond : SecondData S first (stageImage (fileByte disk boot2)))
    (hkernel : FileOn disk KERNELFILENAME kernel second) (si di : Word) :
    ∃ m, ∀ fuel ≥ m, ∃ t, boot B F S int10 int13 int15 fuel si di w = some t ∧
      AtKernel disk kernel second range n t := by
  obtain ⟨m, hm⟩ := firstStage_loads hfits hbios hfirst hdl hch hboot2 si di
  refine ⟨m + (second + n + 23), fun fuel hfuel => ?_⟩
  obtain ⟨t, log, u, hrun, hload, hu⟩ := hm fuel (by omega)
  have hdata : SecondData S first u.mem := hsecond.congr fun a ha => by
    have hin := hsecond.inside a (Or.inl ha)
    rw [destination, Set.mem_Ico] at hin
    have hbyte := hu.image (a - BOOT2_LOCATION.toNat) (by omega)
    rwa [Nat.add_sub_cancel' hin.1] at hbyte
  obtain ⟨c, hstage, hc⟩ := secondStage_spec (w := { w with low := u }) si di hfits
    hbios hu.ds hu.ss hu.sp hu.espHigh hu.copy hdata hkernel
    (show second + n + 22 < fuel by omega)
  refine ⟨c, ?_, hc⟩
  simp only [boot, Option.bind_eq_bind]
  rw [hrun, Option.bind_some, hload, Option.bind_some]
  exact hstage

/-! ### A floppy disk -/

/-- The data of the second stage from the address `0x7100` on. -/
def stageData : List Byte :=
  [0x00, 0x02, 0x12, 0x00, 0x02, 0x00, 0x00, 0x00, 0x00, 0x00, 0x02, 0x09, 0x00, 0x00, 0x00, 0x00]
    ++ KERNELFILENAME ++ [0x00, 0x00, 0x00, 0x00, 0x00]
    -- `Load Kernel` and `Switch to 32Bit mode`
    ++ [0x4C, 0x6F, 0x61, 0x64, 0x20, 0x4B, 0x65, 0x72, 0x6E, 0x65, 0x6C, 0x0A, 0x0D, 0x00, 0x00, 0x00]
    ++ [0x53, 0x77, 0x69, 0x74, 0x63, 0x68, 0x20, 0x74, 0x6F, 0x20, 0x33, 0x32, 0x42, 0x69, 0x74, 0x20,
      0x6D, 0x6F, 0x64, 0x65, 0x0A, 0x0D, 0x00, 0x00, 0x00, 0x00, 0x00, 0x00, 0x00, 0x00, 0x00, 0x00]
    ++ GDT ++ [0x17, 0x00, 0x50, 0x71, 0x00, 0x00]

/-- Two files of one sector each: `BOOT2.BIN` is cluster 2, and `KERNEL.BIN` is cluster 3. -/
def bootDisk (block byte : ℕ) : Byte :=
  if block = 1 then if 3 ≤ byte ∧ byte < 6 then 0xFF else 0
  else if block = 19 then
    if byte < 11 then BOOT2FILENAME.getD byte 0
    else if byte = 26 then 2
    else if 32 ≤ byte ∧ byte < 43 then KERNELFILENAME.getD (byte - 32) 0
    else if byte = 58 then 3
    else 0
  else if block = 33 then if 0x100 ≤ byte then stageData.getD (byte - 0x100) 0 else 0
  else BitVec.ofNat 8 byte

/-- The range of the conventional memory. -/
def conventional : List Byte :=
  [0x00, 0x00, 0x00, 0x00, 0x00, 0x00, 0x00, 0x00, 0x00, 0xFC, 0x09, 0x00, 0x00, 0x00, 0x00, 0x00,
   0x01, 0x00, 0x00, 0x00]

/-- INT 15h of a BIOS with one range of memory. -/
def biosInt15 (w : Wide) : Wide :=
  if w.low.ax = 0x2401 then { w with a20 := true }
  else { w.setEbx 0 with low := { (w.setEbx 0).low with
    mem := fun a =>
      if linear w.low.es w.di ≤ a ∧ a < linear w.low.es w.di + 20 then
        conventional.getD (a - linear w.low.es w.di) 0
      else w.low.mem a } }

def bootFileLabels : FileLabels where
  disk := bootLabels
  search := bootSearchLabels
  filename := 0x7D70
  afterSearchFile := 0x7C7B
  afterLoadFile := 0x7C81

def stageLabels : SecondLabels where
  file := {
    disk := {
      BytesPerSector := 0x7100
      SectorsPerTrack := 0x7102
      Head := 0x7104
      BOOT_DISK := 0x7106
      _cylinder := 0x7107
      _head := 0x7108
      _sector := 0x7109
      afterLbatochs := 0x7080
      afterReadDisk := 0x70A0
      afterGetSectorValue := 0x70B0 }
    search := {
      FileAllocationTable := 0x710A
      SectorsPerFAT := 0x710B
      BytesPerSector := 0x7100 }
    filename := 0x7110
    afterSearchFile := 0x7006
    afterLoadFile := 0x700C }
  load_kernel_str := 0x7120
  switch32_str := 0x7130
  GDT_start := 0x7150
  GDT_descriptor := 0x7168
  Entry32Bit := 0x7060
  afterPrintKernel := 0x7012
  afterPrintSwitch := 0x701A
  afterLoadMemoryMap := 0x7028
  afterEnableA20line := 0x702B
  afterSwitch32 := 0x7036

/-- What the BIOS hands over, with the boot sector in memory. -/
def handoverWide : Wide where
  low := { handover 1 with
    mem := fun a =>
      if a = 0x7C0C ∨ a = 0x7C10 ∨ a = 0x7C1A then 2
      else if a = 0x7C16 then 9
      else if a = 0x7C18 then 18
      else if 0x7D70 ≤ a ∧ a < 0x7D7B then BOOT2FILENAME.getD (a - 0x7D70) 0
      else if 0x7D80 ≤ a then load_fat_str.getD (a - 0x7D80) 0
      else 0 }
  axHigh := 0
  bxHigh := 0
  cxHigh := 0
  dxHigh := 0
  esi := 0
  edi := 0
  eflags := 0x202
  cr0 := 0x10
  a20 := false

theorem bios_ready : Bios id (biosInt13 bootDisk) biosInt15 bootDisk (fun _ => conventional) 1
    (bootMemory 1) 0x7800 where
  prints _ _ := ⟨⟨⟨rfl, rfl, rfl, rfl, rfl, rfl⟩, fun _ _ _ => rfl⟩, rfl⟩
  resets := biosInt13_resets _ _ _
  delivers _ _ := biosInt13_delivers _ _ _ _ _
  reports := by
    refine ⟨by omega, fun _ _ => by decide, fun _ => 0, rfl,
      fun i _ => ⟨fun h => absurd rfl h, fun h => by omega⟩, fun i _ w heax _ _ _ _ => ?_⟩
    have hax : w.low.ax ≠ 0x2401 := by
      have hlow : w.eax.setWidth 16 = w.low.ax := BitVec.setWidth_append_eq_right
      rw [← hlow, heax]
      decide
    rw [biosInt15, if_neg hax]
    refine ⟨⟨rfl, rfl, rfl, rfl, rfl, rfl⟩, rfl, Wide.ebx_setEbx w 0, fun j hj => ?_,
      fun a _ hout _ => ?_⟩
    · change j < 20 at hj
      refine (if_pos ⟨by omega, by omega⟩).trans ?_
      rw [Nat.add_sub_cancel_left]
    · exact if_neg (by omega)
  opens w hax := by
    rw [biosInt15, if_pos hax]
    exact ⟨⟨⟨rfl, rfl, rfl, rfl, rfl, rfl⟩, fun _ _ _ => rfl⟩, rfl⟩

theorem bootDisk_files :
    FileOn bootDisk BOOT2FILENAME 2 1 ∧ FileOn bootDisk KERNELFILENAME 3 1 := by
  have hone : ∀ {i : ℕ}, i < 1 → i = 0 := fun hi => by omega
  refine ⟨⟨⟨0, by decide, by decide, by decide, by decide⟩, ⟨by decide, ?_, by decide⟩, ?_⟩,
    ⟨⟨1, by decide, by decide, by decide, by decide⟩, ⟨by decide, ?_, by decide⟩, ?_⟩⟩
  all_goals
    intro i hi
    obtain rfl := hone hi
    decide

theorem secondData_boot : SecondData stageLabels 1 (stageImage (fileByte bootDisk 2)) := by
  refine ⟨⟨by decide, by decide, by decide, ?_⟩, fun a ha => ?_, fun a ha => ?_, ?_, by decide,
    by decide, by decide, by decide, by decide, by decide⟩
  · simp only [Labels.Const, Labels.Var, stageLabels, BitVec.reduceToNat]
    omega
  · simp only [SecondLabels.Fixed, FileLabels.Data, Labels.Const, Labels.Var, stageLabels,
      BitVec.reduceToNat] at ha
    rw [destination, Set.mem_Ico, toNat_locations.2.1]
    omega
  · simp only [SecondLabels.Fixed, FileLabels.Data, Labels.Const, Labels.Var, stageLabels,
      BitVec.reduceToNat] at ha ⊢
    omega
  · exact ⟨⟨by decide, by decide, by decide, by decide⟩, by decide, by decide, by decide,
      by decide⟩

theorem firstStage_boot :
    FirstStage firstLabels bootFileLabels (bootMemory 1) 0x7800 handoverWide.low.mem := by
  have hkept : ∀ a, 0x5C00 ≤ a → a < 0xBE00 → a ∈ bootMemory 1 := fun a hlo hhi =>
    Or.inl ⟨hlo, hhi⟩
  refine ⟨⟨⟨⟨by decide, by decide, by decide, ?_⟩, fun a hlo hhi => hkept a (by omega) (by omega),
    fun a ha => ?_, fun a ha => ?_⟩, fun a ha => ?_, by decide, by decide, by decide, ?_, by decide,
    10, ⟨by decide, by decide, hkept _ (by decide) (by decide), Or.inr (by decide)⟩, by decide⟩,
    fun a ha => ?_, fun a ha => ?_, by decide, by decide, by decide, by decide⟩
  · simp only [Labels.Const, Labels.Var, bootFileLabels, bootLabels, BitVec.reduceToNat]
    omega
  · simp only [Labels.Const, bootFileLabels, bootLabels, BitVec.reduceToNat] at ha
    exact ⟨hkept a (by omega) (by omega), by omega⟩
  · simp only [Labels.Var, bootFileLabels, bootLabels, BitVec.reduceToNat] at ha
    omega
  · simp only [Labels.Const, bootFileLabels, bootLabels, BitVec.reduceToNat] at ha
    rw [toNat_locations.2.2.1]
    omega
  · simp [bootFileLabels, bootLabels]
  · simp only [FileLabels.Data, Labels.Const, Labels.Var, bootFileLabels, bootLabels,
      bootSearchLabels, BitVec.reduceToNat] at ha
    rw [bootSector, Set.mem_Ico]
    omega
  · simp only [FileLabels.Data, Labels.Var, bootFileLabels, bootLabels, bootSearchLabels,
      BitVec.reduceToNat] at ha ⊢
    omega

/-- A floppy disk of two files boots. -/
theorem boot_enters_kernel_floppy : ∃ m, ∀ fuel ≥ m, ∃ t,
    boot firstLabels bootFileLabels stageLabels id (biosInt13 bootDisk) biosInt15 fuel 0 0
      handoverWide = some t ∧ AtKernel bootDisk 3 1 (fun _ => conventional) 1 t :=
  boot_enters_kernel ⟨by decide, by decide, by decide, by decide⟩ bios_ready firstStage_boot
    (by decide) (by decide) bootDisk_files.1 secondData_boot bootDisk_files.2 0 0

end B2OS.Boot
