import B2OS.Boot.FatCopy
import B2OS.Boot.SearchFile

/-!
# Loading a File by Its Name

Each stage of the boot loader loads one file: it calls `search_file` with the name of the file and
`load_file` with what that returned. What is looked up and followed is the copy of the blocks
behind the boot sector, what is loaded are the clusters on the disk.

## Main results

* `call_searchFile_spec`, `call_loadFile_spec`: the two routines, with what they leave alone.
* `loadNamed_spec`: the file lies at the load address, and the stage is as it was.
-/

namespace B2OS.Boot

open RealMode Fat12

/-- The labels with which a stage loads its file. -/
structure FileLabels where
  disk : Labels
  search : SearchLabels
  filename : Word
  afterSearchFile : Word
  afterLoadFile : Word

/-- Loads the file whose name is at `filename` to the given location. The search is not followed
behind the last entry of the directory. -/
def loadNamed (F : FileLabels) (int13 : State → State) (fuel : ℕ) (location : Word) (s : State) :
    Option State := do
  let s := { s with bx := F.filename }
  let s ← s.call F.afterSearchFile (searchFile F.search ROOT_ENTRIES)
  let s := { s with cx := location }
  s.call F.afterLoadFile (loadFile F.disk int13 fuel)

/-! ### Files of a disk -/

/-- The byte `i` of the root directory, which starts at block 19. -/
def rootByte (disk : ℕ → ℕ → Byte) (i : ℕ) : Byte := disk (19 + i / 512) (i % 512)

/-- The byte `i` of the file that starts at the cluster `start`. -/
def fileByte (disk : ℕ → ℕ → Byte) (start i : ℕ) : Byte :=
  disk (blockOf (cluster (fat disk) start (i / 512))) (i % 512)

/-- Entry `k` of the root directory has the name. -/
def Named (disk : ℕ → ℕ → Byte) (name : List Byte) (k : ℕ) : Prop :=
  ∀ i < 11, rootByte disk (32 * k + i) = name.getD i 0

instance (disk : ℕ → ℕ → Byte) (name : List Byte) (k : ℕ) : Decidable (Named disk name k) :=
  inferInstanceAs (Decidable (∀ i < 11, _))

/-- The sectors of the disk. -/
def TotalSector : ℕ := 2880

/-- The root directory has a file of the name; its first entry with the name gives the first one of
`length` clusters, which are all on the disk. -/
structure FileOn (disk : ℕ → ℕ → Byte) (name : List Byte) (start length : ℕ) : Prop where
  entry : ∃ k < ROOT_ENTRIES, Named disk name k ∧ (∀ j < k, ¬ Named disk name j) ∧
    (rootByte disk (32 * k + 27) ++ rootByte disk (32 * k + 26)).toNat = start
  chain : FileChain (fat disk) start length
  within : ∀ i < length, blockOf (cluster (fat disk) start i) < TotalSector

variable {L : Labels} {S : SearchLabels} {F : FileLabels} {int13 : State → State}
  {disk : ℕ → ℕ → Byte} {drive : Byte} {loader : Set ℕ} {stackLow : ℕ} {s : State}

theorem toNat_ROOT_DIRECTORY : ROOT_DIRECTORY.toNat = FAT12_LOCATION.toNat + 512 * 18 := by decide

/-- The copy of the root directory is behind those of the FAT. -/
theorem copiedByte_root (disk : ℕ → ℕ → Byte) (i : ℕ) :
    copiedByte disk (512 * 18 + i) = rootByte disk i := by
  rw [copiedByte, rootByte, show 1 + (512 * 18 + i) / 512 = 19 + i / 512 by omega,
    show (512 * 18 + i) % 512 = i % 512 by omega]

/-- The copy of the FAT. -/
theorem copiedByte_fat (disk : ℕ → ℕ → Byte) (i : ℕ) : copiedByte disk i = fat disk i := rfl

/-- An entry in the copy of the root directory. -/
theorem rootByte_of_copy {mem : Memory}
    (hcopy : ∀ i < 512 * 32, mem (FAT12_LOCATION.toNat + i) = copiedByte disk i) {k i : ℕ}
    (hk : k < ROOT_ENTRIES) (hi : i < 32) :
    mem (entryAt k + i) = rootByte disk (32 * k + i) := by
  rw [ROOT_ENTRIES] at hk
  rw [← copiedByte_root, ← hcopy _ (by omega), entryAt, toNat_ROOT_DIRECTORY]
  congr 1
  omega

/-! ### The search -/

/-- A call of `search_file` with the name in the directory writes to the stack only. -/
theorem call_searchFile_spec {ret : Word} (hs : SearchCall S (s.push ret)) (hss : s.ss = 0)
    (hroom : 8 ≤ s.sp.toNat) {k : ℕ} (hk : k < ROOT_ENTRIES)
    (hsame : SameName (s.push ret).mem (entryAt k) s.bx.toNat)
    (hfirst : ∀ j < k, ¬ SameName (s.push ret).mem (entryAt j) s.bx.toNat) :
    ∃ t, s.call ret (searchFile S ROOT_ENTRIES) = some t ∧ s.SameFrame t ∧
      t.ax = word (s.push ret).mem (entryAt k + 0x1A) ∧
      ∀ a, a + 8 < s.sp.toNat ∨ s.sp.toNat ≤ a → t.mem a = s.mem a := by
  have hmem := mem_openSearch hs
  have hsp := State.toNat_sp_push ret (s := s) (by omega)
  obtain ⟨a, b, c, d, hloop, hc⟩ := searchLoop_first (searching_openSearch hs) hs.name
    (Nat.zero_le k) (by omega) (n := ROOT_ENTRIES) (by omega)
    (by rw [hmem]; exact (hs.sameName_iff hk).mpr hsame)
    (fun j _ hj => by rw [hmem, hs.sameName_iff (by omega)]; exact hfirst j hj)
  obtain ⟨hframe, hax⟩ := closeSearch_spec hs hk (a := a) (b := b) (d := d) hc
  have hrun : searchFile S ROOT_ENTRIES (s.push ret) =
      some (closeSearch { openSearch S (s.push ret) with ax := a, bx := b, cx := c, dx := d }) := by
    rw [searchFile, hloop]
    rfl
  have htop : (closeSearch { openSearch S (s.push ret) with
      ax := a, bx := b, cx := c, dx := d }).top = ret := by
    rw [State.top, hframe.ss, hframe.sp]
    refine (congrArg (fun mem => word mem (linear (s.push ret).ss (s.push ret).sp)) hmem).trans ?_
    exact hs.top_searchMemory.trans (State.top_push s ret)
  refine ⟨_, State.call_eq_some hrun htop, ⟨hframe.ds, hframe.es, hframe.ss,
    (congrArg (· + 2) hframe.sp).trans (State.push_sp_add s ret), hframe.espHigh, hframe.ebp⟩, hax,
    fun x hx => ?_⟩
  change (openSearch S (s.push ret)).mem x = s.mem x
  rw [hmem, searchMemory, State.pushAll_mem_of_apart (l := [_, _, _]) hs.ss hs.room
    (by change x + 6 < _ ∨ _; omega)]
  exact State.push_mem_of_apart ret hss (by omega) (by omega)

/-! ### The load -/

/-- A call of `load_file` writes to the destination, to the variables of the stage and to the
stack. -/
theorem call_loadFile_spec {length fuel : ℕ} (ret : Word)
    (hs : CanLoad L disk drive loader stackLow length s)
    (hchain : FileChain (fat disk) s.ax.toNat length)
    (hint : ∀ i < length, Delivers int13 disk drive
      (usedMemory loader stackLow s.sp.toNat s.cx length) stackLow
      (blockOf (cluster (fat disk) s.ax.toNat i)))
    (hfuel : length ≤ fuel) :
    ∃ t, s.call ret (loadFile L int13 fuel) = some t ∧ t.ds = 0 ∧ t.ss = 0 ∧ t.sp = s.sp ∧
      t.espHigh = 0 ∧
      (∀ i < length, ∀ j < 512, t.mem (s.cx.toNat + 512 * i + j) =
        disk (blockOf (cluster (fat disk) s.ax.toNat i)) j) ∧
      ∀ a ∈ usedMemory loader stackLow s.sp.toNat s.cx length, ¬ L.Var a →
        a ∉ destination s.cx length → a < stackLow ∨ s.sp.toNat ≤ a → t.mem a = s.mem a := by
  have hroom := hs.room
  have hregions := hs.regions
  obtain ⟨s₀, hopen, hds, hsp, hes, hframe, hret, hmem⟩ :=
    openFrame_spec hs.ss hs.espHigh (by omega) ret
  have hsame : ∀ {a}, a < stackLow ∨ s.sp.toNat ≤ a → s₀.mem a = s.mem a := fun ha =>
    hmem _ (by omega)
  have hholds : L.Holds drive s₀.mem :=
    hs.holds.congr fun a ha => hsame (hregions.const_kept ha).2.2.2
  have hfat : ∀ k < 512 * 32, s₀.mem (FAT12_LOCATION.toNat + k) = fat disk k := fun k hk =>
    (hsame (hregions.fat_kept ⟨by omega, by omega⟩).2.2.2).trans (hs.fat k hk)
  have hstart : Loaded L disk (usedMemory loader stackLow s.sp.toNat s.cx length) stackLow s.cx
      s.ax.toNat length s₀ 0 s₀ := by
    refine ⟨⟨rfl, rfl, rfl, rfl, rfl, rfl⟩, ?_, hframe, fun a _ _ _ _ => rfl, fun k hk => ?_⟩
    · have hcx := s.cx.isLt
      rw [hes, Nat.mul_zero, Nat.add_zero, Nat.div_eq_of_lt (by omega)]
      rfl
    · exact absurd hk (Nat.not_lt_zero k)
  obtain ⟨t, hloop, ht⟩ := doWhile_inv
    (Loaded L disk (usedMemory loader stackLow s.sp.toNat s.cx length) stackLow s.cx s.ax.toNat
      length s₀)
    (fun i hi a ha => loadNextSector_spec hregions (hds.trans hs.ds) hholds hfat (by omega)
      (by omega) hchain hi (hint i hi) (hchain.pos.trans_le hfuel) ha)
    hchain.pos hfuel hstart
  have htsp : t.sp.toNat = s.sp.toNat - 12 := (congrArg BitVec.toNat ht.regs.sp).trans hsp
  have hspLt := s.sp.isLt
  obtain ⟨hcmem, -, hctop⟩ := closeFrame_spec ht.frame (by omega)
  have hkept : ∀ a ∈ usedMemory loader stackLow s.sp.toNat s.cx length, ¬ L.Var a →
      a ∉ destination s.cx length → a < stackLow ∨ s.sp.toNat - 6 ≤ a → t.mem a = s₀.mem a :=
    fun a ha hvar hdest hout => ht.kept a ha hvar hdest (by omega)
  -- the return address is above the frame
  have hword : ∀ a, s.sp.toNat - 2 ≤ a → a < s.sp.toNat → t.mem a = s₀.mem a := by
    intro a hlo hhi
    have hin : a ∈ Set.Ico stackLow s.sp.toNat := ⟨by omega, hhi⟩
    refine hkept a (Or.inl (Or.inr hin)) (fun ha => ?_) (fun ha => ?_) (by omega)
    · exact Set.disjoint_left.mp hregions.loader_stack (hregions.data a (Or.inr ha)) hin
    · exact Set.disjoint_left.mp hregions.destination_free ha (Or.inr hin)
  have htop : (closeFrame t).top = ret := by
    rw [hctop, htsp, show s.sp.toNat - 12 + 10 = s.sp.toNat - 2 by omega,
      word_congr (hword _ (by omega) (by omega)) (hword _ (by omega) (by omega)), hret]
  have hrun : loadFile L int13 fuel (s.push ret) = some (closeFrame t) := by
    rw [loadFile, hopen, hloop]
    rfl
  -- the frame pointer is that of the caller's stack
  have hebp := ht.frame.ebp
  refine ⟨_, State.call_eq_some hrun htop, ht.regs.ds.trans (hds.trans hs.ds), ht.frame.ss, ?_, ?_,
    fun i hi j hj => ?_, fun a ha hvar hdest hout => ?_⟩
  · change t.ebp.setWidth 16 + 2 + 2 + 2 = s.sp
    apply BitVec.eq_of_toNat_eq
    simp only [BitVec.toNat_add, BitVec.toNat_setWidth, BitVec.reduceToNat, hebp]
    omega
  · change t.ebp.extractLsb' 16 16 = 0
    apply BitVec.eq_of_toNat_eq
    rw [BitVec.extractLsb'_toNat, hebp, Nat.shiftRight_eq_div_pow]
    change _ = 0
    omega
  · change (closeFrame t).mem _ = _
    rw [hcmem]
    exact ht.sectors i hi j hj
  · change (closeFrame t).mem _ = _
    rw [hcmem, hkept a ha hvar hdest (by omega)]
    exact hsame hout

/-! ### A stage loads its file -/

/-- The bytes of the stage that the search reads. -/
def FileLabels.Data (F : FileLabels) (a : ℕ) : Prop :=
  F.filename.toNat ≤ a ∧ a < F.filename.toNat + 11 ∨
    a = F.search.FileAllocationTable.toNat ∨
    a = F.search.SectorsPerFAT.toNat ∨ a = F.search.SectorsPerFAT.toNat + 1 ∨
    a = F.search.BytesPerSector.toNat ∨ a = F.search.BytesPerSector.toNat + 1

/-- The data of a stage are in place: those of `read_disk` and `search_file`, and the name. -/
structure FileLabels.Holds (F : FileLabels) (drive : Byte) (name : List Byte) (mem : Memory) :
    Prop where
  disk : F.disk.Holds drive mem
  FileAllocationTable : mem F.search.FileAllocationTable.toNat = 2
  SectorsPerFAT : word mem F.search.SectorsPerFAT.toNat = 9
  BytesPerSector : word mem F.search.BytesPerSector.toNat = 512
  filename : ∀ i < 11, mem (F.filename.toNat + i) = name.getD i 0

/-- The state in which a stage loads a file of `length` clusters. -/
structure CanLoadNamed (F : FileLabels) (disk : ℕ → ℕ → Byte) (drive : Byte) (name : List Byte)
    (loader : Set ℕ) (stackLow : ℕ) (location : Word) (length : ℕ) (s : State) : Prop where
  ds : s.ds = 0
  ss : s.ss = 0
  espHigh : s.espHigh = 0
  holds : F.Holds drive name s.mem
  copy : ∀ i < 512 * 32, s.mem (FAT12_LOCATION.toNat + i) = copiedByte disk i
  room : stackLow + 22 ≤ s.sp.toNat
  regions : Regions F.disk loader stackLow s.sp.toNat location length
  data : ∀ a, F.Data a → a ∈ loader
  name : F.filename.toNat + 11 ≤ 65536

section Named

variable {name : List Byte} {location : Word} {start length fuel : ℕ}

/-- Where the search reads there is no stack. -/
theorem CanLoadNamed.read (h : CanLoadNamed F disk drive name loader stackLow location length s)
    {a : ℕ} (ha : F.search.Read F.filename a) : a < stackLow ∨ s.sp.toNat ≤ a := by
  rcases ha with ⟨hlo, hhi⟩ | hdata
  · rw [entryAt, ROOT_ENTRIES, toNat_ROOT_DIRECTORY] at hhi
    rw [toNat_ROOT_DIRECTORY] at hlo
    have hcopied : a ∈ fatCopy := by
      rw [fatCopy, Set.mem_Ico]
      omega
    exact h.regions.out_of_stack (Or.inr (Or.inl hcopied))
  · exact h.regions.out_of_stack (Or.inl (h.data a hdata))

/-- The search finds the file. -/
theorem CanLoadNamed.search (h : CanLoadNamed F disk drive name loader stackLow location length s)
    (hfile : FileOn disk name start length) :
    ∃ t, ({ s with bx := F.filename } : State).call F.afterSearchFile
        (searchFile F.search ROOT_ENTRIES) = some t ∧ s.SameFrame t ∧ t.ax.toNat = start ∧
      ∀ a, a < stackLow ∨ s.sp.toNat ≤ a → t.mem a = s.mem a := by
  have hroom := h.room
  let u : State := { s with bx := F.filename }
  have husp : u.sp.toNat = s.sp.toNat := rfl
  have hubx : u.bx.toNat = F.filename.toNat := rfl
  have hsp := State.toNat_sp_push F.afterSearchFile (s := u) (by omega)
  have hpush : ∀ a, a < stackLow ∨ s.sp.toNat ≤ a →
      (u.push F.afterSearchFile).mem a = s.mem a := fun a ha =>
    State.push_mem_of_apart (s := u) F.afterSearchFile h.ss (by omega) (by omega)
  have hread : ∀ a, F.search.Read F.filename a →
      (u.push F.afterSearchFile).mem a = s.mem a := fun a ha => hpush a (h.read ha)
  have hroot : ∀ {k i}, k < ROOT_ENTRIES → i < 32 →
      (u.push F.afterSearchFile).mem (entryAt k + i) = rootByte disk (32 * k + i) :=
    fun {k i} hk hi => by
      rw [← rootByte_of_copy h.copy hk hi]
      refine hread _ (Or.inl ⟨?_, ?_⟩)
      · rw [entryAt]
        omega
      · rw [ROOT_ENTRIES] at hk
        rw [entryAt, entryAt, ROOT_ENTRIES]
        omega
  have hname : ∀ {k}, k < ROOT_ENTRIES →
      (SameName (u.push F.afterSearchFile).mem (entryAt k) u.bx.toNat ↔ Named disk name k) :=
    fun {k} hk => by
      refine forall₂_congr fun i hi => ?_
      have hbyte := h.holds.filename i hi
      rw [hroot hk (by omega), hread _ (Or.inr (Or.inl ⟨by omega, by omega⟩)), hbyte]
  have hcall : SearchCall F.search (u.push F.afterSearchFile) := by
    refine ⟨h.ds, h.ss, ?_, ?_, ?_, h.name, by omega, fun a ha => ?_⟩
    · rw [hread _ (by simp [SearchLabels.Read])]
      exact h.holds.FileAllocationTable
    · rw [word_congr (hread _ (by simp [SearchLabels.Read]))
        (hread _ (by simp [SearchLabels.Read]))]
      exact h.holds.SectorsPerFAT
    · rw [word_congr (hread _ (by simp [SearchLabels.Read]))
        (hread _ (by simp [SearchLabels.Read]))]
      exact h.holds.BytesPerSector
    · have hout := h.read ha
      omega
  obtain ⟨k, hk, hnamed, hfirst, hstart⟩ := hfile.entry
  obtain ⟨t, hrun, hframe, hax, hmem⟩ := call_searchFile_spec hcall h.ss (by omega) hk
    ((hname hk).mpr hnamed) fun j hj hsame => hfirst j hj ((hname (by omega)).mp hsame)
  refine ⟨t, hrun, ⟨hframe.ds, hframe.es, hframe.ss, hframe.sp, hframe.espHigh, hframe.ebp⟩, ?_,
    fun a ha => hmem a (by omega)⟩
  rw [hax, ← hstart, word, Nat.add_assoc, hroot hk (by omega), hroot hk (by omega)]

/-- **A stage loads its file.** The file lies at the load address, behind the calls the segments and
the stack are as they were, and so is the memory that the load works with, but for the variables of
the stage and the stack. -/
theorem loadNamed_spec (h : CanLoadNamed F disk drive name loader stackLow location length s)
    (hfile : FileOn disk name start length)
    (hint : ∀ lba < TotalSector, Delivers int13 disk drive
      (usedMemory loader stackLow s.sp.toNat location length) stackLow lba)
    (hfuel : length ≤ fuel) :
    ∃ t, loadNamed F int13 fuel location s = some t ∧ t.ds = 0 ∧ t.ss = 0 ∧ t.sp = s.sp ∧
      t.espHigh = 0 ∧
      (∀ i < 512 * length, t.mem (location.toNat + i) = fileByte disk start i) ∧
      ∀ a ∈ usedMemory loader stackLow s.sp.toNat location length, ¬ F.disk.Var a →
        a ∉ destination location length → a < stackLow ∨ s.sp.toNat ≤ a → t.mem a = s.mem a := by
  obtain ⟨u, hsearch, hframe, hax, humem⟩ := h.search hfile
  have hregions := h.regions
  have hload : CanLoad F.disk disk drive loader stackLow length { u with cx := location } := by
    refine ⟨hframe.ds.trans h.ds, hframe.ss.trans h.ss, hframe.espHigh.trans h.espHigh, ?_, ?_, ?_,
      ?_⟩
    · exact h.holds.disk.congr fun a ha => humem a (hregions.const_kept ha).2.2.2
    · intro k hk
      refine (humem _ (hregions.fat_kept ⟨by omega, by omega⟩).2.2.2).trans ?_
      rw [h.copy k hk, copiedByte_fat]
    · change stackLow + 22 ≤ u.sp.toNat
      rw [hframe.sp]
      exact h.room
    · change Regions F.disk loader stackLow u.sp.toNat location length
      rw [hframe.sp]
      exact hregions
  have husp : u.sp.toNat = s.sp.toNat := congrArg BitVec.toNat hframe.sp
  obtain ⟨t, hrun, hds, hss, hsp, hhigh, hsectors, hkept⟩ := call_loadFile_spec
    (s := { u with cx := location }) F.afterLoadFile hload
    (by change FileChain _ u.ax.toNat _; rw [hax]; exact hfile.chain)
    (fun i hi => by
      change Delivers _ _ _ (usedMemory _ _ u.sp.toNat _ _) _ (blockOf (cluster _ u.ax.toNat i))
      rw [husp, hax]
      exact hint _ (hfile.within i hi))
    hfuel
  change ∀ i < length, ∀ j < 512, t.mem (location.toNat + 512 * i + j) =
    disk (blockOf (cluster (fat disk) u.ax.toNat i)) j at hsectors
  change ∀ a ∈ usedMemory loader stackLow u.sp.toNat location length, ¬ F.disk.Var a →
    a ∉ destination location length → a < stackLow ∨ u.sp.toNat ≤ a → t.mem a = u.mem a at hkept
  rw [husp] at hkept
  refine ⟨t, ?_, hds, hss, hsp.trans hframe.sp, hhigh, fun i hi => ?_,
    fun a ha hvar hdest hout => ?_⟩
  · rw [loadNamed, Option.bind_eq_bind, hsearch, Option.bind_some]
    exact hrun
  · rw [fileByte, ← hax, ← hsectors (i / 512) (by omega) (i % 512) (by omega)]
    congr 1
    omega
  · rw [hkept a ha hvar hdest hout, humem a hout]

end Named

end B2OS.Boot
