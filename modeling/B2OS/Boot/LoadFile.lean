import B2OS.Boot.SectorRead

/-!
# Loading a File

`load_file` follows the chain of a file through the copy of the FAT and reads one cluster
after the other. After `i` turns of its loop the first `i` clusters lie at the load address,
one behind the other, and the frame of the routine holds the next cluster and the count.

## Main results

* `loadNextSector_spec`: one turn of the loop keeps `Loaded`.
* `loadFile_loads`: `load_file` loads a file of any length and fragmentation.
-/

namespace B2OS.Boot

open RealMode Fat12

variable {L : Labels} {int13 : State → State} {disk : ℕ → ℕ → Byte} {drive : Byte}
  {kept : Set ℕ} {stackLow stackTop fuel : ℕ} {s : State}

/-! ### The address of a cluster -/

/-- The file allocation table of a disk, which starts behind the boot sector. -/
def fat (disk : ℕ → ℕ → Byte) (k : ℕ) : Byte := disk (1 + k / 512) (k % 512)

/-- The block of a cluster. Cluster 2 is block 33, the first one behind the root directory. -/
def blockOf (cluster : ℕ) : ℕ := cluster + 31

/-- The words of the frame: the cluster at `[ebp - 2]`, the count at `[ebp - 4]` and the load
address at `[ebp - 6]`, on top of the stack. -/
structure Frame (base : Word) (cluster count : ℕ) (s : State) : Prop where
  ss : s.ss = 0
  ebp : s.ebp.toNat = s.sp.toNat + 6
  base : word s.mem s.sp.toNat = base
  count : (word s.mem (s.sp.toNat + 2)).toNat = count
  cluster : (word s.mem (s.sp.toNat + 4)).toNat = cluster

namespace Frame

variable {base : Word} {cluster count : ℕ}

theorem frame_eq (h : Frame base cluster count s) {k : ℕ} (hk : k ≤ 6) :
    s.frame (BitVec.ofNat 32 k) = s.sp.toNat + (6 - k) := by
  have hebp := h.ebp
  have hsp := s.sp.isLt
  have hss : s.ss.toNat = 0 := by rw [h.ss]; rfl
  rw [State.frame, hss, BitVec.toNat_sub, BitVec.toNat_ofNat]
  omega

theorem frame_two (h : Frame base cluster count s) : s.frame 2 = s.sp.toNat + 4 :=
  h.frame_eq (k := 2) (by omega)

theorem frame_four (h : Frame base cluster count s) : s.frame 4 = s.sp.toNat + 2 :=
  h.frame_eq (k := 4) (by omega)

theorem frame_six (h : Frame base cluster count s) : s.frame 6 = s.sp.toNat :=
  h.frame_eq (k := 6) (by omega)

theorem congr {t : State} (h : Frame base cluster count s) (hs : s.SameFrame t)
    (hmem : ∀ a, s.sp.toNat ≤ a → a < s.sp.toNat + 6 → t.mem a = s.mem a) :
    Frame base cluster count t := by
  have hword : ∀ k, k ≤ 4 → word t.mem (s.sp.toNat + k) = word s.mem (s.sp.toNat + k) :=
    fun k hk => word_congr (hmem _ (by omega) (by omega)) (hmem _ (by omega) (by omega))
  refine ⟨hs.ss.trans h.ss, ?_, ?_, ?_, ?_⟩
  · rw [hs.ebp, hs.sp, h.ebp]
  · rw [hs.sp]
    exact (hword 0 (by omega)).trans h.base
  · rw [hs.sp, hword 2 (by omega), h.count]
  · rw [hs.sp, hword 4 (by omega), h.cluster]

/-- The words of the frame are apart from each other. -/
theorem storeCount (h : Frame base cluster count s) (v : Word) :
    Frame base cluster v.toNat (s.storeFrame 4 v) := by
  have hmem : (s.storeFrame 4 v).mem = storeWord s.mem (s.sp.toNat + 2) v := by
    rw [← h.frame_four]
    rfl
  refine ⟨h.ss, h.ebp, ?_, ?_, ?_⟩
  · rw [hmem]
    exact (word_storeWord_of_apart (Or.inl le_rfl)).trans h.base
  · rw [hmem]
    exact congrArg BitVec.toNat (word_storeWord _ _ _)
  · rw [hmem, ← h.cluster]
    exact congrArg BitVec.toNat (word_storeWord_of_apart (Or.inr le_rfl))

theorem storeCluster (h : Frame base cluster count s) (v : Word) :
    Frame base v.toNat count (s.storeFrame 2 v) := by
  have hmem : (s.storeFrame 2 v).mem = storeWord s.mem (s.sp.toNat + 4) v := by
    rw [← h.frame_two]
    rfl
  refine ⟨h.ss, h.ebp, ?_, ?_, ?_⟩
  · rw [hmem]
    have hapart : s.sp.toNat + 2 ≤ s.sp.toNat + 4 := by omega
    exact (word_storeWord_of_apart (Or.inl hapart)).trans h.base
  · rw [hmem, ← h.count]
    exact congrArg BitVec.toNat (word_storeWord_of_apart (Or.inl le_rfl))
  · rw [hmem]
    exact congrArg BitVec.toNat (word_storeWord _ _ _)

/-- A store into the frame leaves the memory outside of it. -/
theorem storeFrame_mem (h : Frame base cluster count s) {k : ℕ} (hk : k = 2 ∨ k = 4) (v : Word)
    {a : ℕ} (ha : a < s.sp.toNat ∨ s.sp.toNat + 6 ≤ a) :
    (s.storeFrame (BitVec.ofNat 32 k) v).mem a = s.mem a := by
  have hat := h.frame_eq (k := k) (by omega)
  exact storeWord_of_ne (by omega) (by omega)

end Frame

/-- Cluster number `count` goes behind the ones before it: BX wraps at each 64K, where ES goes
on by `0x1000`. -/
theorem sectorAddress_spec {base : Word} {cluster count : ℕ} (h : Frame base cluster count s)
    (hbase : base.toNat % 512 = 0) (hpos : 0 < base.toNat)
    (hend : base.toNat + 512 * count < 2 ^ 20)
    (hes : s.es.toNat = 0x1000 * ((base.toNat + 512 * count - 1) / 65536)) :
    ({ s with es := (sectorAddress s).es } : State).SameFrame (sectorAddress s) ∧
      (sectorAddress s).mem = s.mem ∧
      (sectorAddress s).bx.toNat = (base.toNat + 512 * count) % 65536 ∧
      (sectorAddress s).es.toNat = 0x1000 * ((base.toNat + 512 * count) / 65536) := by
  obtain ⟨low, high, offset, hoffset, heq⟩ : ∃ low high offset : Word,
      offset = BitVec.ofNat 16 ((word s.mem (s.frame 4)).toNat * (0x200 : Word).toNat) +
        word s.mem (s.frame 6) ∧
      sectorAddress s =
        if offset = 0 then
          { s with ax := s.es + 0x1000, bx := offset, dx := high, es := s.es + 0x1000 }
        else { s with ax := low, bx := offset, dx := high } :=
    ⟨_, _, _, rfl, rfl⟩
  have hbx : offset.toNat = (base.toNat + 512 * count) % 65536 := by
    rw [hoffset, h.frame_four, h.frame_six, h.base, BitVec.toNat_add, BitVec.toNat_ofNat, h.count]
    simp only [BitVec.reduceToNat]
    omega
  have hwrap : offset = 0 ↔ (base.toNat + 512 * count) % 65536 = 0 := by
    rw [← hbx, ← BitVec.toNat_inj]
    rfl
  rw [heq]
  split_ifs with hzero
  · rw [hwrap] at hzero
    refine ⟨⟨rfl, rfl, rfl, rfl, rfl, rfl⟩, rfl, hbx, ?_⟩
    change (s.es + 0x1000).toNat = _
    rw [BitVec.toNat_add, hes]
    simp only [BitVec.reduceToNat]
    omega
  · rw [hwrap] at hzero
    refine ⟨⟨rfl, rfl, rfl, rfl, rfl, rfl⟩, rfl, hbx, ?_⟩
    change s.es.toNat = _
    rw [hes]
    omega

/-! ### One cluster -/

/-- The cluster that was read is counted. -/
theorem countCluster_spec {base : Word} {cluster count : ℕ} (hframe : Frame base cluster count s)
    (hcount : count + 1 < 65536) :
    let v := word s.mem (s.frame 4) + 1
    let t := ({ s with ax := v } : State).storeFrame 4 v
    Frame base cluster (count + 1) t ∧
      ∀ a, a < s.sp.toNat ∨ s.sp.toNat + 6 ≤ a → t.mem a = s.mem a := by
  intro v t
  have hv : v.toNat = count + 1 := by
    change (word s.mem (s.frame 4) + 1).toNat = _
    rw [toNat_add_one] <;> rw [hframe.frame_four, hframe.count]
    exact hcount
  have hvframe : Frame base cluster count { s with ax := v } :=
    ⟨hframe.ss, hframe.ebp, hframe.base, hframe.count, hframe.cluster⟩
  rw [← hv]
  exact ⟨hvframe.storeCount v, fun a ha => hvframe.storeFrame_mem (Or.inr rfl) v ha⟩

/-- The entry of the cluster takes its place in the frame. -/
theorem nextCluster_spec {base : Word} {cluster count : ℕ} (hframe : Frame base cluster count s)
    (hds : s.ds = 0) (hroom : stackLow + 2 ≤ s.sp.toNat) (hhi : cluster ≤ 0xFEF)
    (hfat : ∀ k ≤ 3 * cluster / 2 + 1, FAT12_LOCATION.toNat + k < stackLow ∨
      s.sp.toNat + 6 ≤ FAT12_LOCATION.toNat + k) (ret : Word) :
    ∃ g, ({ s with ax := word s.mem (s.frame 2) } : State).call ret getSectorValueOp = some g ∧
      s.SameFrame (g.storeFrame 2 g.ax) ∧
      g.ax.toNat = entry (fun k => s.mem (FAT12_LOCATION.toNat + k)) cluster ∧
      Frame base g.ax.toNat count (g.storeFrame 2 g.ax) ∧
      ∀ a, a < stackLow ∨ s.sp.toNat + 6 ≤ a → (g.storeFrame 2 g.ax).mem a = s.mem a := by
  let w : State := { s with ax := word s.mem (s.frame 2) }
  have hwax : w.ax.toNat = cluster := by
    change (word s.mem (s.frame 2)).toNat = cluster
    rw [hframe.frame_two, hframe.cluster]
  obtain ⟨g, hget, hg, hgmem, hgax⟩ := call_getSectorValueOp_spec (s := w) hds (by omega) ret
  have hsg : s.SameFrame g := ⟨hg.ds, hg.es, hg.ss, hg.sp, hg.espHigh, hg.ebp⟩
  have hsp : g.sp.toNat = s.sp.toNat := congrArg BitVec.toNat hg.sp
  -- the call leaves the stack above it
  have hcall : ∀ a, a < stackLow ∨ s.sp.toNat ≤ a → g.mem a = s.mem a := by
    intro a ha
    have hwsp : w.sp.toNat = s.sp.toNat := rfl
    rw [hgmem]
    exact State.push_mem_of_apart (s := w) _ hframe.ss (by omega) (by omega)
  have hgframe : Frame base cluster count g :=
    hframe.congr hsg fun a hlo _ => hcall a (Or.inr hlo)
  refine ⟨g, hget, ⟨hg.ds, hg.es, hg.ss, hg.sp, hg.espHigh, hg.ebp⟩, ?_,
    hgframe.storeCluster g.ax, fun a ha => ?_⟩
  · rw [hgax, hwax, ← hgmem]
    exact entry_congr fun k hk => hcall _ ((hfat k hk).imp_right (by omega))
  · have hstore := hgframe.storeFrame_mem (k := 2) (Or.inl rfl) g.ax (a := a) (by omega)
    exact hstore.trans (hcall a (by omega))

/-- `load_file_inc` delivers the current cluster and moves on to the next one. -/
theorem loadFileInc_spec {base : Word} {cluster count : ℕ}
    (hL : Placed L kept stackLow stackTop) (hs : CanRead L drive stackLow stackTop 10 s)
    (hframe : Frame base cluster count s) (htop : s.sp.toNat + 6 ≤ stackTop)
    (hlo : 2 ≤ cluster) (hhi : cluster ≤ 0xFEF) (hcount : count + 1 < 65536)
    (hfat : ∀ k ≤ 3 * cluster / 2 + 1, FAT12_LOCATION.toNat + k ∈ kept ∧
      ¬ L.Var (FAT12_LOCATION.toNat + k) ∧
      (FAT12_LOCATION.toNat + k < linear s.es s.bx ∨
        linear s.es s.bx + 512 ≤ FAT12_LOCATION.toNat + k) ∧
      (FAT12_LOCATION.toNat + k < stackLow ∨ stackTop ≤ FAT12_LOCATION.toNat + k))
    (hint : Delivers int13 disk drive kept stackLow (blockOf cluster)) (hfuel : 0 < fuel) :
    ∃ t, loadFileInc L int13 fuel s = some t ∧ s.SameFrame t ∧
      Frame base (entry (fun k => s.mem (FAT12_LOCATION.toNat + k)) cluster) (count + 1) t ∧
      t.ax.toNat = entry (fun k => s.mem (FAT12_LOCATION.toNat + k)) cluster ∧
      (∀ j < 512, t.mem (linear s.es s.bx + j) = disk (blockOf cluster) j) ∧
      ∀ a ∈ kept, ¬ L.Var a → a < linear s.es s.bx ∨ linear s.es s.bx + 512 ≤ a →
        a < stackLow ∨ stackTop ≤ a → t.mem a = s.mem a := by
  have hroom := hs.room
  -- the sector is read
  let b : State := { s with
    cx := 1
    ax := word s.mem (s.frame 2) + (FAT12_SECTOR_COUNT + BOOT_SECTOR_COUNT) - 2 }
  have hb : CanRead L drive stackLow stackTop 10 b :=
    ⟨hs.ds, hs.ss, hs.holds, hs.room, hs.top, hs.offset, hs.buffer⟩
  have hblock : b.ax.toNat = blockOf cluster := by
    change (word s.mem (s.frame 2) + 33 - 2).toNat = _
    rw [BitVec.toNat_sub, BitVec.toNat_add, hframe.frame_two, hframe.cluster, blockOf]
    simp only [BitVec.reduceToNat]
    omega
  obtain ⟨r, hread, hr, hsector, hkept⟩ := call_readDisk_spec hL hb rfl
    (by rw [hblock, blockOf]; omega) (hblock ▸ hint) L.afterReadDisk hfuel
  rw [hblock] at hsector
  have hsr : s.SameFrame r := ⟨hr.ds, hr.es, hr.ss, hr.sp, hr.espHigh, hr.ebp⟩
  have hrsp : r.sp.toNat = s.sp.toNat := congrArg BitVec.toNat hr.sp
  have hrframe : Frame base cluster count r := by
    refine hframe.congr hsr fun a hlo hhi => ?_
    exact hkept a (hL.stack a (by omega) (by omega)) (hL.stack_not_var (by omega) (by omega))
      (hs.stack_not_buffer (by omega) (by omega)) (Or.inr hlo)
  -- the frame goes on to the next cluster
  obtain ⟨huframe, humem⟩ := countCluster_spec hrframe hcount
  generalize hu : ({ r with ax := word r.mem (r.frame 4) + 1 } : State).storeFrame 4
    (word r.mem (r.frame 4) + 1) = u at huframe humem
  have hsu : s.SameFrame u := by
    rw [← hu]
    exact ⟨hr.ds, hr.es, hr.ss, hr.sp, hr.espHigh, hr.ebp⟩
  have husp : u.sp.toNat = s.sp.toNat := congrArg BitVec.toNat hsu.sp
  obtain ⟨g, hget, hg, hax, hgframe, hgmem⟩ := nextCluster_spec huframe
    (hsu.ds.trans hs.ds) (show stackLow + 2 ≤ u.sp.toNat by omega) hhi (fun k hk => by have := hfat k hk; omega)
    L.afterGetSectorValue
  have hout : ∀ a ∈ kept, ¬ L.Var a → a < linear s.es s.bx ∨ linear s.es s.bx + 512 ≤ a →
      a < stackLow ∨ stackTop ≤ a → u.mem a = s.mem a := by
    intro a ha hvar hbuffer hstack
    exact (humem a (by omega)).trans
      (hkept a ha hvar hbuffer (by change a < stackLow ∨ s.sp.toNat ≤ a; omega))
  have hentry : g.ax.toNat = entry (fun k => s.mem (FAT12_LOCATION.toNat + k)) cluster := by
    rw [hax]
    refine entry_congr fun k hk => ?_
    obtain ⟨hin, hvar, hbuffer, hstack⟩ := hfat k hk
    exact hout _ hin hvar hbuffer hstack
  refine ⟨g.storeFrame 2 g.ax, ?_, hsu.trans hg, hentry ▸ hgframe, hentry, ?_, ?_⟩
  · rw [loadFileInc]
    change (b.call L.afterReadDisk _).bind _ = _
    rw [hread, Option.bind_some]
    dsimp only
    rw [hu]
    change (State.call _ L.afterGetSectorValue _).bind _ = _
    rw [hget, Option.bind_some]
  · intro j hj
    have hstack := (hs.buffer (linear s.es s.bx + j) (by omega) (by omega)).2
    rw [hgmem _ (by omega), humem _ (by omega)]
    exact hsector j hj
  · intro a ha hvar hbuffer hstack
    rw [hgmem a (by omega)]
    exact hout a ha hvar hbuffer hstack

/-! ### The regions of a load -/

/-- The copy of the sectors behind the boot sector. -/
def fatCopy : Set ℕ := Set.Ico FAT12_LOCATION.toNat (FAT12_LOCATION.toNat + 512 * 32)

def destination (base : Word) (length : ℕ) : Set ℕ :=
  Set.Ico base.toNat (base.toNat + 512 * length)

/-- The load address is a multiple of 512 but not 0, the destination ends below 1 MiB, and it,
the loader, the copy of the FAT and the stack are apart from each other. -/
structure Regions (L : Labels) (loader : Set ℕ) (stackLow stackTop : ℕ) (base : Word)
    (length : ℕ) : Prop where
  apart : L.Apart
  data : ∀ a, L.Const a ∨ L.Var a → a ∈ loader
  loader_fat : Disjoint loader fatCopy
  loader_stack : Disjoint loader (Set.Ico stackLow stackTop)
  fat_stack : Disjoint fatCopy (Set.Ico stackLow stackTop)
  aligned : base.toNat % 512 = 0
  nonzero : base ≠ 0
  below : base.toNat + 512 * length ≤ 2 ^ 20
  destination_free : Disjoint (destination base length)
    (loader ∪ fatCopy ∪ Set.Ico stackLow stackTop)

/-- The memory that a load works with. -/
def usedMemory (loader : Set ℕ) (stackLow stackTop : ℕ) (base : Word) (length : ℕ) : Set ℕ :=
  loader ∪ fatCopy ∪ Set.Ico stackLow stackTop ∪ destination base length

namespace Regions

variable {loader : Set ℕ} {base : Word} {length : ℕ}
  (h : Regions L loader stackLow stackTop base length)
include h

theorem pos : 0 < base.toNat :=
  Nat.pos_of_ne_zero fun hz => h.nonzero (BitVec.eq_of_toNat_eq hz)

theorem out_of_stack {a : ℕ} (ha : a ∈ loader ∨ a ∈ fatCopy ∨ a ∈ destination base length) :
    a < stackLow ∨ stackTop ≤ a := by
  have hnot : a ∉ Set.Ico stackLow stackTop := by
    intro hin
    rcases ha with hl | hf | hd
    · exact Set.disjoint_left.mp h.loader_stack hl hin
    · exact Set.disjoint_left.mp h.fat_stack hf hin
    · exact Set.disjoint_left.mp h.destination_free hd (Or.inr hin)
  by_contra hin
  exact hnot ⟨by omega, by omega⟩

/-- The stack below the frame of `load_file`, and the data of the stage. -/
theorem placed {top : ℕ} (htop : top ≤ stackTop) :
    Placed L (usedMemory loader stackLow stackTop base length) stackLow top where
  apart := h.apart
  stack := fun a hlo hhi => Or.inl (Or.inr ⟨hlo, by omega⟩)
  const := fun a ha => by
    have hout := h.out_of_stack (Or.inl (h.data a (Or.inl ha)))
    exact ⟨Or.inl (Or.inl (Or.inl (h.data a (Or.inl ha)))), by omega⟩
  var := fun a ha => by
    have hout := h.out_of_stack (Or.inl (h.data a (Or.inr ha)))
    omega

/-- The copy of the FAT is apart from everything that is written. -/
theorem fat_kept {a : ℕ} (ha : a ∈ fatCopy) :
    a ∈ usedMemory loader stackLow stackTop base length ∧ ¬ L.Var a ∧
      a ∉ destination base length ∧ (a < stackLow ∨ stackTop ≤ a) := by
  refine ⟨Or.inl (Or.inl (Or.inr ha)), ?_, ?_, h.out_of_stack (Or.inr (Or.inl ha))⟩
  · exact fun hvar => Set.disjoint_left.mp h.loader_fat (h.data a (Or.inr hvar)) ha
  · exact fun hd => Set.disjoint_left.mp h.destination_free hd (Or.inl (Or.inr ha))

/-- So are the constants. -/
theorem const_kept {a : ℕ} (ha : L.Const a) :
    a ∈ usedMemory loader stackLow stackTop base length ∧ ¬ L.Var a ∧
      a ∉ destination base length ∧ (a < stackLow ∨ stackTop ≤ a) := by
  have hin := h.data a (Or.inl ha)
  refine ⟨Or.inl (Or.inl (Or.inl hin)), h.apart.const a ha, ?_, h.out_of_stack (Or.inl hin)⟩
  exact fun hd => Set.disjoint_left.mp h.destination_free hd (Or.inl (Or.inl hin))

end Regions

/-! ### The loop -/

/-- The signed comparison with the end mark is the unsigned one on 12 bits. -/
theorem slt_endOfChain_iff {v : Word} (hv : v.toNat < 4096) :
    v.slt FAT_END_OF_CHAIN = true ↔ v.toNat < 0xFF0 := by
  have hmark : FAT_END_OF_CHAIN.toInt = 0xFF0 := rfl
  rw [BitVec.slt_iff_toInt_lt, BitVec.toInt_eq_toNat_of_lt (by omega), hmark]
  omega

/-- After `i` turns from the state `s₀` the first `i` clusters are loaded. The bytes above the
frame hold the caller's EBP and the return address. -/
structure Loaded (L : Labels) (disk : ℕ → ℕ → Byte) (kept : Set ℕ) (stackLow : ℕ) (base : Word)
    (start length : ℕ) (s₀ : State) (i : ℕ) (s : State) : Prop where
  regs : ({ s₀ with es := s.es } : State).SameFrame s
  es : s.es.toNat = 0x1000 * ((base.toNat + 512 * i - 1) / 65536)
  frame : Frame base (cluster (fat disk) start i) i s
  kept : ∀ a ∈ kept, ¬ L.Var a → a ∉ destination base length →
    a < stackLow ∨ s₀.sp.toNat + 6 ≤ a → s.mem a = s₀.mem a
  sectors : ∀ k < i, ∀ j < 512,
    s.mem (base.toNat + 512 * k + j) = disk (blockOf (cluster (fat disk) start k)) j

/-- The place of a cluster is in the destination. -/
theorem mem_destination {base : Word} {length i a : ℕ} (hi : i < length)
    (hlo : base.toNat + 512 * i ≤ a) (hhi : a < base.toNat + 512 * i + 512) :
    a ∈ destination base length :=
  ⟨by omega, by omega⟩

/-- The next cluster is read to its place. -/
theorem Loaded.canRead {loader : Set ℕ} {base : Word} {start length i : ℕ} {s₀ : State}
    (h : Regions L loader stackLow stackTop base length)
    (hds : s₀.ds = 0) (hholds : L.Holds drive s₀.mem)
    (hroom : stackLow + 10 ≤ s₀.sp.toNat) (htop : s₀.sp.toNat + 6 ≤ stackTop) (hi : i < length)
    (hs : Loaded L disk (usedMemory loader stackLow stackTop base length) stackLow base start
      length s₀ i s) :
    linear (sectorAddress s).es (sectorAddress s).bx = base.toNat + 512 * i ∧
      CanRead L drive stackLow (s₀.sp.toNat + 6) 10 (sectorAddress s) := by
  have hbelow := h.below
  obtain ⟨hregs, hmem, hbx, hes⟩ := sectorAddress_spec hs.frame h.aligned h.pos (by omega) hs.es
  have hbuffer : linear (sectorAddress s).es (sectorAddress s).bx = base.toNat + 512 * i := by
    rw [linear, hbx, hes]
    omega
  have hsp : (sectorAddress s).sp = s₀.sp := hregs.sp.trans hs.regs.sp
  have hconst : ∀ a, L.Const a → (sectorAddress s).mem a = s₀.mem a := fun a ha => by
    obtain ⟨hused, hvar, hdest, hstack⟩ := h.const_kept ha
    rw [hmem]
    exact hs.kept a hused hvar hdest (by omega)
  refine ⟨hbuffer, hregs.ds.trans (hs.regs.ds.trans hds), hregs.ss.trans hs.frame.ss,
    hholds.congr hconst, ?_, ?_, ?_, fun a hlo hhi => ?_⟩
  · rw [hsp]
    exact hroom
  · rw [hsp]
    omega
  · have haligned := h.aligned
    omega
  · rw [hbuffer] at hlo hhi
    have ha := mem_destination hi hlo hhi
    have hstack := h.out_of_stack (Or.inr (Or.inr ha))
    exact ⟨fun hc => (h.const_kept hc).2.2.1 ha, by omega⟩

/-- One turn of the loop loads one cluster more. -/
theorem loadNextSector_spec {loader : Set ℕ} {base : Word} {start length i : ℕ} {s₀ : State}
    (h : Regions L loader stackLow stackTop base length)
    (hds : s₀.ds = 0) (hholds : L.Holds drive s₀.mem)
    (hfat : ∀ k < 512 * 32, s₀.mem (FAT12_LOCATION.toNat + k) = fat disk k)
    (hroom : stackLow + 10 ≤ s₀.sp.toNat) (htop : s₀.sp.toNat + 6 ≤ stackTop)
    (hchain : FileChain (fat disk) start length) (hi : i < length)
    (hint : Delivers int13 disk drive (usedMemory loader stackLow stackTop base length) stackLow
      (blockOf (cluster (fat disk) start i)))
    (hfuel : 0 < fuel)
    (hs : Loaded L disk (usedMemory loader stackLow stackTop base length) stackLow base start
      length s₀ i s) :
    ∃ t, loadNextSector L int13 fuel s = some t ∧
      Loaded L disk (usedMemory loader stackLow stackTop base length) stackLow base start length
        s₀ (i + 1) t ∧
      (t.ax.slt FAT_END_OF_CHAIN = true ↔ i + 1 < length) := by
  have hbelow := h.below
  have haligned := h.aligned
  obtain ⟨hlo, hhi⟩ := hchain.data i hi
  -- the buffer is the place of the cluster
  obtain ⟨hbuffer, hread⟩ := hs.canRead h hds hholds hroom htop hi
  obtain ⟨hregs, hmem, -, hes⟩ := sectorAddress_spec hs.frame haligned h.pos (by omega) hs.es
  have hout : ∀ {a}, a ∉ destination base length →
      a < base.toNat + 512 * i ∨ base.toNat + 512 * i + 512 ≤ a := fun ha => by
    by_contra hbetween
    exact ha (mem_destination hi (by omega) (by omega))
  have hsp : (sectorAddress s).sp = s₀.sp := hregs.sp.trans hs.regs.sp
  have hkept : ∀ {a}, (a ∈ usedMemory loader stackLow stackTop base length ∧ ¬ L.Var a ∧
      a ∉ destination base length ∧ (a < stackLow ∨ stackTop ≤ a)) →
      (sectorAddress s).mem a = s₀.mem a := fun ⟨hused, hvar, hdest, hstack⟩ => by
    rw [hmem]
    exact hs.kept _ hused hvar hdest (by omega)
  have hframe : Frame base (cluster (fat disk) start i) i (sectorAddress s) :=
    Frame.congr (s := { s with es := (sectorAddress s).es })
      ⟨hs.frame.ss, hs.frame.ebp, hs.frame.base, hs.frame.count, hs.frame.cluster⟩ hregs
      fun a _ _ => congrFun hmem a
  -- the copy of the FAT is the table of the disk
  have hcopy : ∀ k ≤ 3 * cluster (fat disk) start i / 2 + 1,
      FAT12_LOCATION.toNat + k ∈ fatCopy := fun k hk => ⟨by omega, by omega⟩
  have hentry : entry (fun k => (sectorAddress s).mem (FAT12_LOCATION.toNat + k))
      (cluster (fat disk) start i) = cluster (fat disk) start (i + 1) := by
    rw [cluster_succ]
    refine entry_congr fun k hk => ?_
    exact (hkept (h.fat_kept (hcopy k hk))).trans (hfat k (by omega))
  obtain ⟨t, hrun, htregs, htframe, htax, htsector, htkept⟩ := loadFileInc_spec
    (h.placed htop) hread hframe (by rw [hsp]) hlo hhi (by omega)
    (fun k hk => by
      obtain ⟨hused, hvar, hdest, hstack⟩ := h.fat_kept (hcopy k hk)
      exact ⟨hused, hvar, hbuffer ▸ hout hdest, by omega⟩)
    hint hfuel
  rw [hentry] at htframe htax
  rw [hbuffer] at htsector htkept
  refine ⟨t, hrun, ⟨?_, ?_, htframe, ?_, ?_⟩, ?_⟩
  · exact ⟨htregs.ds.trans (hregs.ds.trans hs.regs.ds), rfl,
      htregs.ss.trans (hregs.ss.trans hs.regs.ss), htregs.sp.trans (hregs.sp.trans hs.regs.sp),
      htregs.espHigh.trans (hregs.espHigh.trans hs.regs.espHigh),
      htregs.ebp.trans (hregs.ebp.trans hs.regs.ebp)⟩
  · rw [htregs.es, hes]
    omega
  · intro a hused hvar hdest hstack
    rw [htkept a hused hvar (hout hdest) hstack, hmem]
    exact hs.kept a hused hvar hdest hstack
  · intro k hk j hj
    by_cases hlast : k = i
    · rw [hlast]
      exact htsector j hj
    · have hd : base.toNat + 512 * k + j ∈ destination base length := ⟨by omega, by omega⟩
      have hstack := h.out_of_stack (Or.inr (Or.inr hd))
      rw [htkept _ (Or.inr hd) ?_ (by omega) (by omega), hmem]
      · exact hs.sectors k (by omega) j hj
      · intro hvar
        exact Set.disjoint_left.mp h.destination_free hd
          (Or.inl (Or.inl (h.data _ (Or.inr hvar))))
  · have hlt := entry_lt (fat disk) (cluster (fat disk) start i)
    rw [← cluster_succ, ← htax] at hlt
    rw [slt_endOfChain_iff (by omega), htax, hchain.cluster_lt_iff hi]

/-! ### The routine -/

/-- The state in which a stage calls `load_file`, with `length` clusters to come: real mode
segments of 0, the copy of the FAT in place, room on the stack, and the load address in CX. -/
structure CanLoad (L : Labels) (disk : ℕ → ℕ → Byte) (drive : Byte) (loader : Set ℕ)
    (stackLow length : ℕ) (s : State) : Prop where
  ds : s.ds = 0
  ss : s.ss = 0
  espHigh : s.espHigh = 0
  holds : L.Holds drive s.mem
  fat : ∀ k < 512 * 32, s.mem (FAT12_LOCATION.toNat + k) = fat disk k
  room : stackLow + 22 ≤ s.sp.toNat
  regions : Regions L loader stackLow s.sp.toNat s.cx length

/-- The frame that `load_file` opens: the first cluster, no count and the load address, below the
caller's EBP and the return address. -/
theorem openFrame_spec (hss : s.ss = 0) (hhigh : s.espHigh = 0) (hsp : 12 ≤ s.sp.toNat)
    (ret : Word) :
    ∃ s₀, openFrame (s.push ret) = s₀ ∧ s₀.ds = s.ds ∧ s₀.sp.toNat = s.sp.toNat - 12 ∧
      s₀.es = 0 ∧ Frame s.cx s.ax.toNat 0 s₀ ∧ word s₀.mem (s.sp.toNat - 2) = ret ∧
      ∀ a, a + 12 < s.sp.toNat ∨ s.sp.toNat ≤ a → s₀.mem a = s.mem a := by
  let l : List Word :=
    [ret, s.ebp.extractLsb' 16 16, s.ebp.setWidth 16, s.ax, 0, s.cx]
  have hlen : 2 * l.length ≤ s.sp.toNat := hsp
  have hword : ∀ i (hi : i < 6),
      word (s.pushAll l).mem (s.sp.toNat - 2 * (i + 1)) = l.get ⟨i, hi⟩ := fun i hi =>
    State.word_pushAll hss hlen hi
  have hspl : (s.pushAll l).sp.toNat = s.sp.toNat - 12 := State.toNat_sp_pushAll hlen
  have hebp : (s.espHigh ++ (s.sp - 2 - 2 - 2)).toNat = s.sp.toNat - 6 := by
    have hlow : (s.sp - 2 - 2 - 2).toNat = s.sp.toNat - 6 := by
      have hthree : (s.pushAll (l.take 3)).sp.toNat = _ :=
        State.toNat_sp_pushAll (by change 6 ≤ s.sp.toNat; omega)
      exact hthree
    rw [hhigh, BitVec.toNat_append, hlow]
    exact Nat.zero_or _
  have hopen : openFrame (s.push ret) = { s.pushAll l with
      bx := 0
      es := 0
      ebp := s.espHigh ++ (s.sp - 2 - 2 - 2) } := rfl
  have hds := State.ds_pushAll (s := s) l
  have hss' := State.ss_pushAll (s := s) l
  have hmem : ∀ a, a + 12 < s.sp.toNat ∨ s.sp.toNat ≤ a → (s.pushAll l).mem a = s.mem a :=
    fun a ha => State.pushAll_mem_of_apart hss hlen ha
  rw [hopen]
  -- from here on only the words count, not how they were pushed
  generalize s.pushAll l = p at hword hspl hds hss' hmem ⊢
  refine ⟨_, rfl, hds, hspl, rfl, ⟨hss'.trans hss, ?_, ?_, ?_, ?_⟩, hword 0 (by omega),
    hmem⟩
  · rw [hebp, hspl]
    omega
  · rw [hspl]
    exact hword 5 (by omega)
  · rw [hspl, show s.sp.toNat - 12 + 2 = s.sp.toNat - 2 * (4 + 1) by omega, hword 4 (by omega)]
    rfl
  · rw [hspl, show s.sp.toNat - 12 + 4 = s.sp.toNat - 2 * (3 + 1) by omega, hword 3 (by omega)]
    rfl

/-- The end of `load_file` returns the count, and leaves the return address on the stack. -/
theorem closeFrame_spec {base : Word} {cluster count : ℕ} (h : Frame base cluster count s)
    (htop : s.sp.toNat + 12 ≤ 65536) :
    (closeFrame s).mem = s.mem ∧ (closeFrame s).bx.toNat = count ∧
      (closeFrame s).top = word s.mem (s.sp.toNat + 10) := by
  have hsp : (s.ebp.setWidth 16 + 2 + 2).toNat = s.sp.toNat + 10 := by
    rw [BitVec.toNat_add, BitVec.toNat_add, BitVec.toNat_setWidth, h.ebp]
    simp only [BitVec.reduceToNat]
    omega
  refine ⟨rfl, ?_, ?_⟩
  · change (word s.mem (s.frame 4)).toNat = count
    rw [h.frame_four, h.count]
  · change word s.mem (linear s.ss (s.ebp.setWidth 16 + 2 + 2)) = _
    rw [h.ss, linear_zero, hsp]

/-- **The boot loader reads the file**: whatever the chain of its clusters, `load_file` puts
them behind each other from the address in CX on, and returns their number in BX. -/
theorem loadFile_loads {loader : Set ℕ} {length : ℕ} (ret : Word)
    (hs : CanLoad L disk drive loader stackLow length s)
    (hchain : FileChain (fat disk) s.ax.toNat length)
    (hint : ∀ i < length, Delivers int13 disk drive
      (usedMemory loader stackLow s.sp.toNat s.cx length) stackLow
      (blockOf (cluster (fat disk) s.ax.toNat i)))
    (hfuel : length ≤ fuel) :
    ∃ t, s.call ret (loadFile L int13 fuel) = some t ∧ t.bx.toNat = length ∧
      ∀ i < length, ∀ j < 512, t.mem (s.cx.toNat + 512 * i + j) =
        disk (blockOf (cluster (fat disk) s.ax.toNat i)) j := by
  have hroom := hs.room
  have hregions := hs.regions
  obtain ⟨s₀, hopen, hds, hsp, hes, hframe, hret, hmem⟩ :=
    openFrame_spec hs.ss hs.espHigh (by omega) ret
  -- the frame is in the stack
  have hsame : ∀ {a}, a < stackLow ∨ s.sp.toNat ≤ a → s₀.mem a = s.mem a := fun ha =>
    hmem _ (by omega)
  have hholds : L.Holds drive s₀.mem :=
    hs.holds.congr fun a ha => hsame (hregions.const_kept ha).2.2.2
  have hfat : ∀ k < 512 * 32, s₀.mem (FAT12_LOCATION.toNat + k) = fat disk k := fun k hk =>
    (hsame (hregions.fat_kept ⟨by omega, by omega⟩).2.2.2).trans (hs.fat k hk)
  have hstart : Loaded L disk (usedMemory loader stackLow s.sp.toNat s.cx length) stackLow s.cx
      s.ax.toNat length s₀ 0 s₀ := by
    refine ⟨⟨rfl, rfl, rfl, rfl, rfl, rfl⟩, ?_, hframe, fun a _ _ _ _ => rfl, fun k hk => ?_⟩
    · have hcx := s.cx.isLt
      rw [hes, Nat.mul_zero, Nat.add_zero, Nat.div_eq_of_lt (by omega)]
      rfl
    · exact absurd hk (Nat.not_lt_zero k)
  obtain ⟨t, hloop, ht⟩ := doWhile_inv
    (Loaded L disk (usedMemory loader stackLow s.sp.toNat s.cx length) stackLow s.cx s.ax.toNat
      length s₀)
    (fun i hi a ha => loadNextSector_spec hregions (hds.trans hs.ds) hholds hfat (by omega)
      (by omega) hchain hi (hint i hi) (hchain.pos.trans_le hfuel) ha)
    hchain.pos hfuel hstart
  have htsp : t.sp.toNat = s.sp.toNat - 12 := (congrArg BitVec.toNat ht.regs.sp).trans hsp
  have hspLt := s.sp.isLt
  obtain ⟨hcmem, hcbx, hctop⟩ := closeFrame_spec ht.frame (by omega)
  -- the return address is above the frame
  have hretKept : ∀ a, s.sp.toNat - 2 ≤ a → a < s.sp.toNat → t.mem a = s₀.mem a := by
    intro a hlo hhi
    have hin : a ∈ Set.Ico stackLow s.sp.toNat := ⟨by omega, hhi⟩
    have hvar : ¬ L.Var a := fun ha =>
      Set.disjoint_left.mp hregions.loader_stack (hregions.data a (Or.inr ha)) hin
    have hdest : a ∉ destination s.cx length := fun ha =>
      Set.disjoint_left.mp hregions.destination_free ha (Or.inr hin)
    exact ht.kept a (Or.inl (Or.inr hin)) hvar hdest (by omega)
  have htop : (closeFrame t).top = ret := by
    rw [hctop, htsp, show s.sp.toNat - 12 + 10 = s.sp.toNat - 2 by omega,
      word_congr (hretKept _ (by omega) (by omega)) (hretKept _ (by omega) (by omega)), hret]
  have hrun : loadFile L int13 fuel (s.push ret) = some (closeFrame t) := by
    rw [loadFile, hopen, hloop]
    rfl
  refine ⟨_, State.call_eq_some hrun htop, hcbx, fun i hi j hj => ?_⟩
  change (closeFrame t).mem _ = _
  rw [hcmem]
  exact ht.sectors i hi j hj

/-! ### A fragmented file across a segment -/

/-- INT 13h of a drive that is ready: delivers the addressed sector. -/
def readyInt13 (disk : ℕ → ℕ → Byte) (s : State) : State :=
  let lba := (((high s.cx).toNat + 256 * ((low s.cx).toNat / 64)) * 2 + (high s.dx).toNat) * 18 +
    ((low s.cx).toNat % 64 - 1)
  { s with
    ax := 0x0001
    carry := false
    mem := fun a =>
      if linear s.es s.bx ≤ a ∧ a < linear s.es s.bx + 512 then
        disk lba (a - linear s.es s.bx)
      else s.mem a }

theorem readyInt13_delivers (disk : ℕ → ℕ → Byte) (drive : Byte) (kept : Set ℕ)
    (stackLow lba : ℕ) : Delivers (readyInt13 disk) disk drive kept stackLow lba := by
  intro s _ _ haddr _
  refine ⟨rfl, ⟨rfl, rfl, rfl, rfl, rfl, rfl⟩, fun j hj => ?_, fun a _ hbuffer _ => ?_⟩
  · refine (if_pos ⟨by omega, by omega⟩).trans ?_
    rw [Nat.add_sub_cancel_left, haddr.eq]
  · exact if_neg (by omega)

/-- A disk with a file of the clusters 2 and 5. -/
def fragmentedDisk (block byte : ℕ) : Byte :=
  if block = 1 then
    if byte = 3 then 0x05 else if byte = 7 then 0xF0 else if byte = 8 then 0xFF else 0
  else BitVec.ofNat 8 block

/-- A stage with the parameter block of a boot sector, and its variables at the end of it. -/
def bootLabels : Labels where
  BytesPerSector := 0x7C0B
  SectorsPerTrack := 0x7C18
  Head := 0x7C1A
  BOOT_DISK := 0x7DF0
  _cylinder := 0x7DF1
  _head := 0x7DF2
  _sector := 0x7DF3
  afterLbatochs := 0x7C80
  afterReadDisk := 0x7CA0
  afterGetSectorValue := 0x7CB0

/-- The stage is about to load the file to `0xFE00`, one cluster below the end of a segment. -/
def bootState : State where
  ax := 2
  bx := 0
  cx := 0xFE00
  dx := 0
  sp := 0x7C00
  espHigh := 0
  ebp := 0x7C00
  ds := 0
  es := 0
  ss := 0
  carry := false
  mem := fun a =>
    if 0x7E00 ≤ a then fat fragmentedDisk (a - 0x7E00)
    else if a = 0x7C0C ∨ a = 0x7C1A then 2
    else if a = 0x7C18 then 18
    else 0

theorem bootState_regions :
    Regions bootLabels (Set.Ico 0x7C00 0x7E00) 0x7000 bootState.sp.toNat bootState.cx 2 := by
  have hdisjoint : ∀ {lo hi lo' hi' : ℕ}, hi ≤ lo' ∨ hi' ≤ lo →
      Disjoint (Set.Ico lo hi) (Set.Ico lo' hi') := fun h =>
    Set.disjoint_left.mpr fun a ha ha' => by
      obtain ⟨h1, h2⟩ := ha
      obtain ⟨h3, h4⟩ := ha'
      omega
  refine ⟨⟨by decide, by decide, by decide, ?_⟩, ?_, hdisjoint (Or.inl (by decide)),
    hdisjoint (Or.inr (by decide)), hdisjoint (Or.inr (by decide)), by decide, by decide,
    by decide, ?_⟩
  · simp only [Labels.Const, Labels.Var, bootLabels, BitVec.reduceToNat]
    omega
  · simp only [Labels.Const, Labels.Var, bootLabels, BitVec.reduceToNat, Set.mem_Ico]
    omega
  · rw [Set.disjoint_union_right, Set.disjoint_union_right]
    exact ⟨⟨hdisjoint (Or.inr (by decide)), hdisjoint (Or.inr (by decide))⟩,
      hdisjoint (Or.inr (by decide))⟩

/-- The second cluster of the file lies in the next segment. -/
theorem loadFile_loads_fragmented :
    ∃ t, bootState.call 0x7C60 (loadFile bootLabels (readyInt13 fragmentedDisk) 2) = some t ∧
      t.bx.toNat = 2 ∧ ∀ i < 2, ∀ j < 512, t.mem (0xFE00 + 512 * i + j) =
        fragmentedDisk (blockOf (cluster (fat fragmentedDisk) 2 i)) j := by
  have hsecond : cluster (fat fragmentedDisk) 2 1 = 5 := by decide
  have hchain : FileChain (fat fragmentedDisk) 2 2 := by
    refine ⟨by decide, fun i hi => ?_, by decide⟩
    obtain rfl | rfl : i = 0 ∨ i = 1 := by omega
    · exact ⟨le_rfl, by decide⟩
    · rw [hsecond]
      exact ⟨by decide, by decide⟩
  have hload : CanLoad bootLabels fragmentedDisk 0 (Set.Ico 0x7C00 0x7E00) 0x7000 2
      bootState := by
    refine ⟨rfl, rfl, rfl, ⟨by decide, by decide, by decide, by decide⟩, fun k _ => ?_,
      by decide, bootState_regions⟩
    refine (if_pos (Nat.le_add_right _ _)).trans ?_
    exact congrArg (fat fragmentedDisk) (Nat.add_sub_cancel_left ..)
  exact loadFile_loads 0x7C60 hload hchain (fun _ _ => readyInt13_delivers _ _ _ _ _)
    le_rfl

end B2OS.Boot
