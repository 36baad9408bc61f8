import B2OS.Lib.Run
import B2OS.Lib.WordArray

/-!
# Paging

This module embeds `paging_init` of `Src/memory/page.c`, which fills one page directory and
1024 page tables with an identity map and then clears the write permission of the pages of
the `.rodata` section. The tables are arrays in byte memory; `walk` is the translation of
the processor that reads them.

## Main results

* `pagingInit_mapped`: every word of the tables after `paging_init`.
* `pagingInit_identity`: the walk of every address ends at the address itself, and the page
  is writable outside `.rodata` only.
-/

namespace B2OS.Paging

open ByteMemory

def DIR_ENTRIES : ℕ := 1024
def TABLE_ENTRIES : ℕ := 1024
def PAGE_SIZE : BitVec 32 := 4096
def TABLES_MAPPED : ℕ := DIR_ENTRIES

def PAGEDIR_PRESENT : BitVec 32 := 0x01
def PAGEDIR_READWRITE : BitVec 32 := 0x02
def PAGEDIR_PAGESZ : BitVec 32 := 0x80
def PAGETAB_PRESENT : BitVec 32 := 0x001
def PAGETAB_READWRITE : BitVec 32 := 0x002

/-- What the linker decides: where the two arrays and the `.rodata` section are. -/
structure Linkage where
  pageDirectory : WordArray
  pageTables : WordArray
  rodataStart : Addr
  rodataEnd : Addr

section Init

variable (L : Linkage)

/-- The inner body: map page `j` of table `i` to itself. -/
def mapPage (i j : ℕ) (m : Memory) : Memory :=
  let entry := L.pageTables.addr (i * TABLE_ENTRIES + j)
  let m := store32 m entry
    ((BitVec.ofNat 32 i * BitVec.ofNat 32 TABLE_ENTRIES + BitVec.ofNat 32 j) * PAGE_SIZE)
  store32 m entry (load32 m entry ||| (PAGETAB_PRESENT ||| PAGETAB_READWRITE))

/-- The outer body: fill table `i` and enter it into the directory. -/
def mapTable (i : ℕ) (m : Memory) : Memory :=
  let m := forUpTo (mapPage L i) TABLE_ENTRIES m
  let m := store32 m (L.pageDirectory.addr i) (L.pageTables.addr (i * TABLE_ENTRIES))
  store32 m (L.pageDirectory.addr i)
    (load32 m (L.pageDirectory.addr i) ||| (PAGEDIR_PRESENT ||| PAGEDIR_READWRITE))

/-- `page_frames[i] &= ~PAGETAB_READWRITE`. -/
def protectFrame (i : ℕ) (m : Memory) : Memory :=
  let entry := L.pageTables.addr i
  store32 m entry (load32 m entry &&& ~~~PAGETAB_READWRITE)

/-- `paging_init`, up to the loading of the directory. The last loop runs from
`rodata_start_idx` to `rodata_end_idx`, both included; with an end behind the first page they
are frame numbers, and its counter does not wrap. -/
def pagingInit (m : Memory) : Memory :=
  let m := forUpTo (fun i m => store32 m (L.pageDirectory.addr i) 0) DIR_ENTRIES m
  let m := forUpTo (mapTable L) TABLES_MAPPED m
  let rodataStartIdx := L.rodataStart >>> 12
  let rodataEndIdx := (L.rodataEnd >>> 12) - 1
  forUpTo (fun n => protectFrame L (rodataStartIdx.toNat + n))
    (rodataEndIdx.toNat + 1 - rodataStartIdx.toNat) m

end Init

/-- The bits of an entry that hold an address. -/
def FRAME_MASK : BitVec 32 := 0xFFFFF000

/-- The bits of an address below its frame. -/
def OFFSET_MASK : BitVec 32 := 0xFFF

/-- The translation of the processor: the physical address of `v` and whether the page is
writable, when both entries are present and the directory entry leads to a table. -/
def walk (m : Memory) (pageDirectory : WordArray) (v : Addr) : Option (Addr × Bool) :=
  let dir := load32 m (pageDirectory.addr (v >>> 22).toNat)
  let tab := load32 m ((dir &&& FRAME_MASK) +
    BitVec.ofNat 32 (4 * ((v >>> 12).toNat % TABLE_ENTRIES)))
  if dir &&& PAGEDIR_PRESENT = 0 ∨ dir &&& PAGEDIR_PAGESZ ≠ 0 ∨ tab &&& PAGETAB_PRESENT = 0 then
    none
  else
    some ((tab &&& FRAME_MASK) ||| (v &&& OFFSET_MASK),
      dir &&& PAGEDIR_READWRITE != 0 && tab &&& PAGETAB_READWRITE != 0)

/-- What the linker promises: two page-aligned arrays that lie apart, and a `.rodata` section
of whole pages behind the first page. -/
structure Linkage.Valid (L : Linkage) : Prop where
  directory_size : L.pageDirectory.size = DIR_ENTRIES
  tables_size : L.pageTables.size = DIR_ENTRIES * TABLE_ENTRIES
  directory_aligned : 4096 ∣ L.pageDirectory.base.toNat
  tables_aligned : 4096 ∣ L.pageTables.base.toNat
  apart : L.pageDirectory.Apart L.pageTables
  start_aligned : 4096 ∣ L.rodataStart.toNat
  end_aligned : 4096 ∣ L.rodataEnd.toNat
  start_pos : 0 < L.rodataStart.toNat
  start_le_end : L.rodataStart.toNat ≤ L.rodataEnd.toNat

/-! ### Entries

An entry joins an address of a page and the flags below it. -/

/-- The flags of a page. -/
def pageFlags (writable : Bool) : BitVec 32 :=
  PAGETAB_PRESENT ||| if writable then PAGETAB_READWRITE else 0

theorem and_mask_of_aligned {a : Addr} (ha : 4096 ∣ a.toNat) : a &&& OFFSET_MASK = 0#32 := by
  apply BitVec.eq_of_toNat_eq
  have hmod := Nat.and_two_pow_sub_one_eq_mod a.toNat 12
  rw [BitVec.toNat_and]
  change a.toNat &&& (2 ^ 12 - 1) = 0
  rw [hmod]
  omega

theorem frame_or_offset (a : Addr) : (a &&& FRAME_MASK) ||| (a &&& OFFSET_MASK) = a := by
  rw [← BitVec.and_or_distrib_left]
  exact BitVec.and_allOnes

/-- The address of an entry. -/
theorem entry_frame {a : Addr} (ha : 4096 ∣ a.toNat) (w : Bool) :
    (a ||| pageFlags w) &&& FRAME_MASK = a := by
  have hflags : pageFlags w &&& FRAME_MASK = 0#32 := by cases w <;> decide
  have hsplit := frame_or_offset a
  rw [and_mask_of_aligned ha, BitVec.or_zero] at hsplit
  rw [BitVec.and_or_distrib_right, hflags, hsplit, BitVec.or_zero]

/-- A flag of an entry. -/
theorem entry_flag {a f : BitVec 32} (ha : 4096 ∣ a.toNat) (hf : OFFSET_MASK &&& f = f)
    (w : Bool) : (a ||| pageFlags w) &&& f = pageFlags w &&& f := by
  have hzero : a &&& f = 0#32 := by
    rw [← hf, ← BitVec.and_assoc, and_mask_of_aligned ha, BitVec.zero_and]
  rw [BitVec.and_or_distrib_right, hzero, BitVec.zero_or]

/-- The address of frame `k`. -/
def frame (k : ℕ) : Addr := BitVec.ofNat 32 k * PAGE_SIZE

theorem frame_toNat {k : ℕ} (hk : k < 2 ^ 20) : (frame k).toNat = k * 4096 := by
  rw [frame, BitVec.toNat_mul, BitVec.toNat_ofNat]
  change (k % 2 ^ 32 * 4096) % 2 ^ 32 = k * 4096
  omega

theorem frame_aligned {k : ℕ} (hk : k < 2 ^ 20) : 4096 ∣ (frame k).toNat := by
  rw [frame_toNat hk]
  omega

/-- Dropping the permission to write. -/
theorem entry_protect {a : Addr} (ha : 4096 ∣ a.toNat) (w : Bool) :
    (a ||| pageFlags w) &&& ~~~PAGETAB_READWRITE = a ||| pageFlags false := by
  have hflags : pageFlags w &&& ~~~PAGETAB_READWRITE = pageFlags false := by
    cases w <;> decide
  have hkeep : a &&& ~~~PAGETAB_READWRITE = a := by
    have hsplit := frame_or_offset a
    rw [and_mask_of_aligned ha, BitVec.or_zero] at hsplit
    rw [← hsplit, BitVec.and_assoc]
    rfl
  rw [BitVec.and_or_distrib_right, hflags, hkeep]

/-- An address is its frame and its offset. -/
theorem frame_or_page_offset (v : Addr) : frame (v >>> 12).toNat ||| (v &&& OFFSET_MASK) = v := by
  have hv := v.isLt
  have hk : (v >>> 12).toNat = v.toNat / 4096 := by
    rw [BitVec.toNat_ushiftRight, Nat.shiftRight_eq_div_pow]
  have hoff : (v &&& OFFSET_MASK).toNat = v.toNat % 4096 := by
    rw [BitVec.toNat_and]
    exact Nat.and_two_pow_sub_one_eq_mod v.toNat 12
  apply BitVec.eq_of_toNat_eq
  rw [BitVec.toNat_or, hoff, hk, frame_toNat (by omega), Nat.mul_comm]
  have hadd := Nat.two_pow_add_eq_or_of_lt (i := 12) (b := v.toNat % 4096) (by omega)
    (v.toNat / 4096)
  rw [show (4096 : ℕ) = 2 ^ 12 from rfl] at *
  rw [← hadd]
  omega

/-! ### The words of the tables -/

/-- The words of the tables while the map is built: `n` pages are mapped, with the given
permission to write, and `d` tables are in the directory. -/
structure Mapped (L : Linkage) (d n : ℕ) (writable : ℕ → Bool) (m : Memory) : Prop where
  directory : ∀ i < d, load32 m (L.pageDirectory.addr i) =
    L.pageTables.addr (i * TABLE_ENTRIES) ||| pageFlags true
  tables : ∀ k < n, load32 m (L.pageTables.addr k) = frame k ||| pageFlags (writable k)

section Words

variable {L : Linkage} (hL : L.Valid)
include hL

/-- The word behind the mapped pages may be stored. -/
theorem Mapped.store_table {d n : ℕ} {writable : ℕ → Bool} {m : Memory}
    (hm : Mapped L d n writable m) (hd : d ≤ DIR_ENTRIES)
    (hn : n < DIR_ENTRIES * TABLE_ENTRIES) (v : BitVec 32) :
    Mapped L d n writable (store32 m (L.pageTables.addr n) v) := by
  have hds := hL.directory_size
  have hts := hL.tables_size
  constructor
  · intro i hi
    rw [WordArray.load_store_of_apart hL.apart.symm m v (by omega) (by omega)]
    exact hm.directory i hi
  · intro k hk
    rw [WordArray.load_store m v (by omega) (by omega), if_neg (by omega)]
    exact hm.tables k hk

/-- The word behind the entries of the directory may be stored. -/
theorem Mapped.store_directory {d n : ℕ} {writable : ℕ → Bool} {m : Memory}
    (hm : Mapped L d n writable m) (hd : d < DIR_ENTRIES)
    (hn : n ≤ DIR_ENTRIES * TABLE_ENTRIES) (v : BitVec 32) :
    Mapped L d n writable (store32 m (L.pageDirectory.addr d) v) := by
  have hds := hL.directory_size
  have hts := hL.tables_size
  constructor
  · intro i hi
    rw [WordArray.load_store m v (by omega) (by omega), if_neg (by omega)]
    exact hm.directory i hi
  · intro k hk
    rw [WordArray.load_store_of_apart hL.apart m v (by omega) (by omega)]
    exact hm.tables k hk

omit hL in
/-- The page behind the mapped pages joins them with its word. -/
theorem Mapped.map_page {d n : ℕ} {writable : ℕ → Bool} {m : Memory}
    (hm : Mapped L d n writable m)
    (hv : load32 m (L.pageTables.addr n) = frame n ||| pageFlags (writable n)) :
    Mapped L d (n + 1) writable m := by
  refine ⟨hm.directory, fun k hk => ?_⟩
  rcases Nat.lt_succ_iff_lt_or_eq.mp hk with hlt | rfl
  · exact hm.tables k hlt
  · exact hv

omit hL in
/-- The table behind the entries of the directory joins them with its word. -/
theorem Mapped.map_table {d n : ℕ} {writable : ℕ → Bool} {m : Memory}
    (hm : Mapped L d n writable m)
    (hv : load32 m (L.pageDirectory.addr d) =
      L.pageTables.addr (d * TABLE_ENTRIES) ||| pageFlags true) :
    Mapped L (d + 1) n writable m := by
  refine ⟨fun i hi => ?_, hm.tables⟩
  rcases Nat.lt_succ_iff_lt_or_eq.mp hi with hlt | rfl
  · exact hm.directory i hlt
  · exact hv

theorem mapPage_mapped {i j : ℕ} (hi : i < DIR_ENTRIES) (hj : j < TABLE_ENTRIES) {m : Memory}
    (hm : Mapped L i (i * TABLE_ENTRIES + j) (fun _ => true) m) :
    Mapped L i (i * TABLE_ENTRIES + (j + 1)) (fun _ => true) (mapPage L i j m) := by
  have hn : i * TABLE_ENTRIES + j < DIR_ENTRIES * TABLE_ENTRIES := by
    simp only [DIR_ENTRIES, TABLE_ENTRIES] at *
    omega
  have hword : (BitVec.ofNat 32 i * BitVec.ofNat 32 TABLE_ENTRIES + BitVec.ofNat 32 j) *
      PAGE_SIZE = frame (i * TABLE_ENTRIES + j) := by
    rw [frame, BitVec.ofNat_add, BitVec.ofNat_mul]
  have hfirst := hm.store_table hL (Nat.le_of_lt hi) hn (frame (i * TABLE_ENTRIES + j))
  rw [mapPage, hword]
  rw [← Nat.add_assoc]
  refine (hfirst.store_table hL (Nat.le_of_lt hi) hn _).map_page ?_
  rw [load32_store32, load32_store32]
  rfl

theorem mapTable_mapped {i : ℕ} (hi : i < DIR_ENTRIES) {m : Memory}
    (hm : Mapped L i (i * TABLE_ENTRIES) (fun _ => true) m) :
    Mapped L (i + 1) ((i + 1) * TABLE_ENTRIES) (fun _ => true) (mapTable L i m) := by
  have hpages : Mapped L i (i * TABLE_ENTRIES + TABLE_ENTRIES) (fun _ => true)
      (forUpTo (mapPage L i) TABLE_ENTRIES m) := by
    refine forUpTo_inv (fun j => Mapped L i (i * TABLE_ENTRIES + j) fun _ => true) ?_ ?_
    · rwa [Nat.add_zero]
    · intro j hj m hm
      exact mapPage_mapped hL hi hj hm
  have hn : i * TABLE_ENTRIES + TABLE_ENTRIES ≤ DIR_ENTRIES * TABLE_ENTRIES := by
    rw [← Nat.succ_mul]
    exact Nat.mul_le_mul_right _ hi
  rw [Nat.succ_mul]
  have hfirst := hpages.store_directory hL hi hn (L.pageTables.addr (i * TABLE_ENTRIES))
  refine (hfirst.store_directory hL hi hn _).map_table ?_
  rw [load32_store32, load32_store32]
  rfl

/-- After the first loops every page is mapped and may be written. -/
theorem mapTables_mapped (m : Memory) :
    Mapped L DIR_ENTRIES (DIR_ENTRIES * TABLE_ENTRIES) (fun _ => true)
      (forUpTo (mapTable L) TABLES_MAPPED m) := by
  refine forUpTo_inv (fun i => Mapped L i (i * TABLE_ENTRIES) fun _ => true) ?_
    fun i hi m hm => mapTable_mapped hL hi hm
  refine ⟨fun i hi => absurd hi (Nat.not_lt_zero i), fun k hk => ?_⟩
  rw [Nat.zero_mul] at hk
  exact absurd hk (Nat.not_lt_zero k)

/-- Protecting a frame takes the permission from its page only. -/
theorem protectFrame_mapped {writable : ℕ → Bool} {m : Memory} {i : ℕ}
    (hm : Mapped L DIR_ENTRIES (DIR_ENTRIES * TABLE_ENTRIES) writable m)
    (hi : i < DIR_ENTRIES * TABLE_ENTRIES) :
    Mapped L DIR_ENTRIES (DIR_ENTRIES * TABLE_ENTRIES)
      (fun k => if k = i then false else writable k) (protectFrame L i m) := by
  have hds := hL.directory_size
  have hts := hL.tables_size
  constructor
  · intro j hj
    rw [protectFrame, WordArray.load_store_of_apart hL.apart.symm m _ (by omega) (by omega)]
    exact hm.directory j hj
  · intro k hk
    rw [protectFrame, WordArray.load_store m _ (by omega) (by omega)]
    split_ifs with heq
    · rw [heq, hm.tables i hi, entry_protect (frame_aligned hi)]
    · exact hm.tables k hk

/-- Protecting the frames from `s` on, `n` of them. -/
theorem protectFrames_mapped {s n : ℕ} (hn : s + n ≤ DIR_ENTRIES * TABLE_ENTRIES) {m : Memory}
    (hm : Mapped L DIR_ENTRIES (DIR_ENTRIES * TABLE_ENTRIES) (fun _ => true) m) :
    Mapped L DIR_ENTRIES (DIR_ENTRIES * TABLE_ENTRIES)
      (fun k => !decide (s ≤ k ∧ k < s + n))
      (forUpTo (fun n => protectFrame L (s + n)) n m) := by
  refine forUpTo_inv (fun n m => Mapped L DIR_ENTRIES (DIR_ENTRIES * TABLE_ENTRIES)
    (fun k => !decide (s ≤ k ∧ k < s + n)) m) ?_ ?_
  · have hnone : (fun k => !decide (s ≤ k ∧ k < s + 0)) = fun _ => true := by
      funext k
      rw [decide_eq_false (by omega), Bool.not_false]
    rwa [hnone]
  · intro i hi m hm
    have hstep : (fun k => !decide (s ≤ k ∧ k < s + (i + 1))) =
        fun k => if k = s + i then false else !decide (s ≤ k ∧ k < s + i) := by
      funext k
      split_ifs with heq
      · rw [decide_eq_true (by omega), Bool.not_true]
      · have hiff : (s ≤ k ∧ k < s + (i + 1)) ↔ (s ≤ k ∧ k < s + i) := by omega
        simp only [hiff]
    rw [hstep]
    exact protectFrame_mapped hL hm (by omega)

/-- `paging_init` enters every table, maps every page and keeps the permission to write
outside `.rodata`. -/
theorem pagingInit_mapped (m : Memory) :
    Mapped L DIR_ENTRIES (DIR_ENTRIES * TABLE_ENTRIES)
      (fun k => !decide ((L.rodataStart >>> 12).toNat ≤ k ∧ k < (L.rodataEnd >>> 12).toNat))
      (pagingInit L m) := by
  have hstart : (L.rodataStart >>> 12).toNat = L.rodataStart.toNat / 4096 := by
    rw [BitVec.toNat_ushiftRight, Nat.shiftRight_eq_div_pow]
  have hend : (L.rodataEnd >>> 12).toNat = L.rodataEnd.toNat / 4096 := by
    rw [BitVec.toNat_ushiftRight, Nat.shiftRight_eq_div_pow]
  have hlt := L.rodataEnd.isLt
  obtain ⟨hpos, halign⟩ := And.intro hL.start_pos hL.start_aligned
  have hle := hL.start_le_end
  -- the section is behind the first page, so the subtraction of 1 does not wrap
  have hlast : ((L.rodataEnd >>> 12) - 1).toNat = L.rodataEnd.toNat / 4096 - 1 := by
    rw [BitVec.toNat_sub, hend]
    change (2 ^ 32 - 1 + L.rodataEnd.toNat / 4096) % 2 ^ 32 = L.rodataEnd.toNat / 4096 - 1
    omega
  have hcount : ((L.rodataEnd >>> 12) - 1).toNat + 1 - (L.rodataStart >>> 12).toNat =
      L.rodataEnd.toNat / 4096 - L.rodataStart.toNat / 4096 := by omega
  have hsum : L.rodataStart.toNat / 4096 +
      (L.rodataEnd.toNat / 4096 - L.rodataStart.toNat / 4096) =
        L.rodataEnd.toNat / 4096 := by omega
  rw [pagingInit, hcount, hstart, hend]
  have hframes := protectFrames_mapped hL (m := forUpTo (mapTable L) TABLES_MAPPED
    (forUpTo (fun i m => store32 m (L.pageDirectory.addr i) 0) DIR_ENTRIES m))
    (s := L.rodataStart.toNat / 4096)
    (n := L.rodataEnd.toNat / 4096 - L.rodataStart.toNat / 4096)
    (by simp only [DIR_ENTRIES, TABLE_ENTRIES]; omega) (mapTables_mapped hL _)
  rwa [hsum] at hframes

end Words

/-! ### The translation -/

/-- The walk through complete tables: every address leads to itself. -/
theorem Mapped.walk_eq {L : Linkage} (hL : L.Valid) {writable : ℕ → Bool} {m : Memory}
    (hm : Mapped L DIR_ENTRIES (DIR_ENTRIES * TABLE_ENTRIES) writable m) (v : Addr) :
    walk m L.pageDirectory v = some (v, writable (v >>> 12).toNat) := by
  have hv := v.isLt
  have hdir : (v >>> 22).toNat = v.toNat / 4194304 := by
    rw [BitVec.toNat_ushiftRight, Nat.shiftRight_eq_div_pow]
  have hpage : (v >>> 12).toNat = v.toNat / 4096 := by
    rw [BitVec.toNat_ushiftRight, Nat.shiftRight_eq_div_pow]
  have hindex : (v >>> 22).toNat * TABLE_ENTRIES + (v >>> 12).toNat % TABLE_ENTRIES =
      (v >>> 12).toNat := by
    rw [hdir, hpage, TABLE_ENTRIES]
    omega
  have hk : (v >>> 12).toNat < DIR_ENTRIES * TABLE_ENTRIES := by
    rw [hpage, DIR_ENTRIES, TABLE_ENTRIES]
    omega
  have hi : (v >>> 22).toNat < DIR_ENTRIES := by
    rw [hdir, DIR_ENTRIES]
    omega
  have haligned : 4096 ∣ (L.pageTables.addr ((v >>> 22).toNat * TABLE_ENTRIES)).toNat := by
    have htables := hL.tables_aligned
    have hsize := hL.tables_size
    rw [WordArray.addr_toNat (by omega), TABLE_ENTRIES]
    omega
  have htable : (L.pageTables.addr ((v >>> 22).toNat * TABLE_ENTRIES)) +
      BitVec.ofNat 32 (4 * ((v >>> 12).toNat % TABLE_ENTRIES)) =
        L.pageTables.addr (v >>> 12).toNat := by
    rw [WordArray.addr, WordArray.addr, BitVec.add_assoc, ← BitVec.ofNat_add, ← Nat.mul_add,
      hindex]
  rw [walk, hm.directory _ hi, entry_frame haligned, htable, hm.tables _ hk]
  have hpresent : ∀ w, pageFlags w &&& PAGETAB_PRESENT ≠ 0 := by decide
  have hsize : ∀ w, pageFlags w &&& PAGEDIR_PAGESZ = 0 := by decide
  have hwrite : ∀ w, (pageFlags w &&& PAGETAB_READWRITE != 0) = w := by decide
  have hdirPresent : PAGEDIR_PRESENT = PAGETAB_PRESENT := rfl
  have hdirWrite : PAGEDIR_READWRITE = PAGETAB_READWRITE := rfl
  rw [hdirPresent, hdirWrite, entry_flag haligned (f := PAGETAB_PRESENT) rfl,
    entry_flag haligned (f := PAGEDIR_PAGESZ) rfl,
    entry_flag haligned (f := PAGETAB_READWRITE) rfl,
    entry_flag (frame_aligned hk) (f := PAGETAB_PRESENT) rfl,
    entry_flag (frame_aligned hk) (f := PAGETAB_READWRITE) rfl,
    entry_frame (frame_aligned hk), frame_or_page_offset, hwrite, hwrite, Bool.true_and,
    if_neg]
  rintro (hno | hno | hno)
  · exact hpresent true hno
  · exact hno (hsize true)
  · exact hpresent _ hno

/-- Paging maps every address to itself, and a page may be written exactly when its frame is
outside `.rodata`. -/
theorem pagingInit_identity {L : Linkage} (hL : L.Valid) (m : Memory) (v : Addr) :
    walk (pagingInit L m) L.pageDirectory v = some (v, !decide
      ((L.rodataStart >>> 12).toNat ≤ (v >>> 12).toNat ∧
        (v >>> 12).toNat < (L.rodataEnd >>> 12).toNat)) :=
  (pagingInit_mapped hL m).walk_eq hL v

/-- Tables from 1 MiB and 4 MiB on, and two pages of `.rodata`. -/
def sampleLinkage : Linkage where
  pageDirectory := ⟨0x100000, DIR_ENTRIES, by decide⟩
  pageTables := ⟨0x400000, DIR_ENTRIES * TABLE_ENTRIES, by decide⟩
  rodataStart := 0x20000
  rodataEnd := 0x22000

theorem sampleLinkage_valid : sampleLinkage.Valid where
  directory_size := rfl
  tables_size := rfl
  directory_aligned := by decide
  tables_aligned := by decide
  apart := Or.inl (by decide)
  start_aligned := by decide
  end_aligned := by decide
  start_pos := by decide
  start_le_end := by decide

/-- An address in the last page of `.rodata`: present, identity mapped, read-only. -/
theorem pagingInit_identity_rodata :
    walk (pagingInit sampleLinkage fun _ => 0) sampleLinkage.pageDirectory 0x21ABC =
      some (0x21ABC, false) :=
  (pagingInit_identity sampleLinkage_valid _ _).trans (by decide)

end B2OS.Paging
