import B2OS.Boot.DiskRead

/-!
# Searching the Root Directory

The routine `search_file` of `disk_read.asm`, which both stages of the boot loader use to find the
file they load. Its start address comes from two multiplications of which only the lower half of
the first factor is loaded; what is left in the upper half drops out of the 16 bits of the result.
The comparison takes words at ten overlapping addresses, which covers the eleven bytes of a name.

The loop over the entries has no count. When no entry of the directory has the name, it goes on
behind the directory, and nothing signals that the file is missing.

## Main results

* `openSearch_spec`: the search starts at the root directory, whatever AH holds.
* `compareLoop_spec`: the comparison finds out whether the eleven bytes are the same.
* `searchFile_iff`: the search ends within the directory, with the first cluster of the first
  entry that has the name, exactly when some entry has it.
-/

namespace B2OS.Boot

open RealMode

/-- The labels of the data that `search_file` uses. -/
structure SearchLabels where
  FileAllocationTable : Word
  SectorsPerFAT : Word
  BytesPerSector : Word

/-- The entries of the root directory. -/
def ROOT_ENTRIES : ℕ := 224

/-- The address of the root directory, behind both copies of the FAT. -/
def ROOT_DIRECTORY : Word := 0xA200

variable (L : SearchLabels)

/-! ### The routine -/

/-- The start of `search_file`, up to `search_loop`. -/
def openSearch (s : State) : State :=
  let s := s.push32 s.ebp
  let s := { s with ebp := s.esp }
  let s := s.push s.bx
  let s := { s with cx := FAT12_LOCATION }
  let s := { s with ax := setLow s.ax (s.byteAt L.FileAllocationTable) }
  let s := { s with dx := s.wordAt L.SectorsPerFAT }
  let s := s.mul s.dx
  let s := { s with dx := s.wordAt L.BytesPerSector }
  let s := s.mul s.dx
  { s with cx := s.cx + s.ax }

/-- `compare_loop` from SI and DI on; it leaves for `kernel_found` or for `filenot_match`. DX counts
to ten, so that eleven turns are enough. -/
def compareLoop : ℕ → Word → Word → State → Option (Bool × State)
  | 0, _, _, _ => none
  | fuel + 1, si, di, s =>
      if s.dx = 10 then some (true, s)
      else
        let s := { s with ax := s.wordAt si }
        let s := { s with bx := s.wordAt di }
        if s.ax ≠ s.bx then some (false, s)
        else compareLoop fuel (si + 1) (di + 1) { s with dx := s.dx + 1 }

/-- `search_loop`, for at most the given number of entries. -/
def searchLoop : ℕ → State → Option State
  | 0, _ => none
  | entries + 1, s => do
      let si := s.cx
      -- `[bp-2]`
      let di := word s.mem (linear s.ss (s.ebp.setWidth 16 - 2))
      let s := { s with dx := 0 }
      let (found, s) ← compareLoop 11 si di s
      if found then some s
      else searchLoop entries { s with cx := s.cx + 0x20 }

/-- `search_file` from `kernel_found` on. -/
def closeSearch (s : State) : State :=
  let s := { s with bx := s.cx }
  let s := { s with bx := s.bx + 0x1A }
  let s := { s with ax := s.wordAt s.bx }
  let s := s.setEsp s.ebp
  { s.drop.drop with ebp := s.drop.top ++ s.top }

/-- Searches for the file whose name is at BX, and returns its first cluster in AX; `none` when that
takes more than the given number of entries. -/
def searchFile (entries : ℕ) (s : State) : Option State := do
  let s ← searchLoop entries (openSearch L s)
  some (closeSearch s)

/-! ### The directory -/

/-- The address of an entry. -/
def entryAt (k : ℕ) : ℕ := ROOT_DIRECTORY.toNat + 32 * k

/-- The eleven bytes at `a` and at `b` are the same. -/
def SameName (mem : Memory) (a b : ℕ) : Prop := ∀ i < 11, mem (a + i) = mem (b + i)

instance (mem : Memory) (a b : ℕ) : Decidable (SameName mem a b) :=
  inferInstanceAs (Decidable (∀ i < 11, _))

/-- Eleven bytes are the same when the words at the first ten of them are. -/
theorem sameName_iff {mem : Memory} {a b : ℕ} :
    SameName mem a b ↔ ∀ i < 10, word mem (a + i) = word mem (b + i) := by
  constructor
  · intro h i hi
    rw [word, word, Nat.add_assoc, Nat.add_assoc, h i (by omega), h (i + 1) (by omega)]
  · intro h i hi
    have hbytes : ∀ j < 10, mem (a + j) = mem (b + j) ∧ mem (a + j + 1) = mem (b + j + 1) :=
      fun j hj => by
        have hword := h j hj
        rw [word, word] at hword
        have hlow := congrArg low hword
        have hhigh := congrArg high hword
        simp only [low_append, high_append] at hlow hhigh
        exact ⟨hlow, hhigh⟩
    rcases Nat.lt_or_ge i 10 with hlt | hge
    · exact (hbytes i hlt).1
    · obtain rfl : i = 9 + 1 := by omega
      exact (hbytes 9 (by omega)).2

/-! ### The comparison -/

theorem wordAt_eq {s : State} (hds : s.ds = 0) (off : Word) :
    s.wordAt off = word s.mem off.toNat := by
  rw [State.wordAt, hds, linear_zero]

/-- The comparison from the count in DX on, with `n` words to go. Of the state it changes AX, BX
and DX. -/
theorem compareLoop_spec {n : ℕ} (si di : Word) {s : State} (hds : s.ds = 0)
    (hdx : s.dx.toNat + n = 10) (hsi : si.toNat + n < 65536) (hdi : di.toNat + n < 65536) :
    ∃ a b d, compareLoop (n + 1) si di s =
      some (decide (∀ i < n, word s.mem (si.toNat + i) = word s.mem (di.toNat + i)),
        { s with ax := a, bx := b, dx := d }) := by
  induction n generalizing si di s with
  | zero =>
      have hten : s.dx = 10 := BitVec.eq_of_toNat_eq hdx
      refine ⟨s.ax, s.bx, s.dx, ?_⟩
      rw [compareLoop, if_pos hten]
      simp
  | succ n ih =>
      have hten : s.dx ≠ 10 := by
        rintro h
        have hdx' : s.dx.toNat = 10 := congrArg BitVec.toNat h
        omega
      have hnext := toNat_add_one (v := s.dx) (by omega)
      rw [compareLoop, if_neg hten, wordAt_eq hds]
      by_cases heq : word s.mem si.toNat = word s.mem di.toNat
      · obtain ⟨a, b, d, hrest⟩ := ih (si + 1) (di + 1)
          (s := { s with
            ax := word s.mem si.toNat, bx := word s.mem di.toNat, dx := s.dx + 1 })
          hds (by rw [hnext]; omega) (by rw [toNat_add_one (by omega)]; omega)
          (by rw [toNat_add_one (by omega)]; omega)
        refine ⟨a, b, d, ?_⟩
        rw [toNat_add_one (by omega), toNat_add_one (by omega)] at hrest
        dsimp only at hrest ⊢
        rw [wordAt_eq (s := { s with ax := word s.mem si.toNat }) hds, if_neg (not_not.mpr heq),
          hrest]
        simp only [Nat.forall_lt_succ_left, Nat.add_zero, heq, true_and, Nat.add_assoc,
          Nat.add_comm 1]
      · refine ⟨word s.mem si.toNat, word s.mem di.toNat, s.dx, ?_⟩
        dsimp only
        rw [wordAt_eq (s := { s with ax := word s.mem si.toNat }) hds, if_pos heq]
        simp only [Nat.forall_lt_succ_left, Nat.add_zero, heq, false_and, decide_false]

/-! ### The entries -/

/-- The search is at entry `k`, and the name it looks for is at `name`. -/
structure Searching (name : Word) (k : ℕ) (s : State) : Prop where
  ds : s.ds = 0
  name : word s.mem (linear s.ss (s.ebp.setWidth 16 - 2)) = name
  cx : s.cx.toNat = entryAt k

section Search

variable {name : Word} {k n : ℕ} {s : State}

theorem entryAt_le (hk : k < ROOT_ENTRIES) : entryAt k + 32 ≤ 0xBE00 := by
  rw [ROOT_ENTRIES] at hk
  have hroot : ROOT_DIRECTORY.toNat = 0xA200 := rfl
  rw [entryAt, hroot]
  omega

/-- One turn of `search_loop`. -/
theorem searchLoop_succ (hs : Searching name k s) (hk : k < ROOT_ENTRIES)
    (hname : name.toNat + 11 ≤ 65536) :
    ∃ a b d, searchLoop (n + 1) s =
      if SameName s.mem (entryAt k) name.toNat then some { s with ax := a, bx := b, dx := d }
      else searchLoop n { s with ax := a, bx := b, cx := s.cx + 0x20, dx := d } := by
  have hentry := entryAt_le hk
  obtain ⟨a, b, d, hcompare⟩ := compareLoop_spec (n := 10) s.cx name
    (s := { s with dx := 0 }) hs.ds rfl (by rw [hs.cx]; omega) (by omega)
  refine ⟨a, b, d, ?_⟩
  rw [searchLoop]
  dsimp only
  rw [hs.name, hcompare, Option.bind_eq_bind, Option.bind_some, hs.cx]
  simp only [← sameName_iff, decide_eq_true_eq]

theorem Searching.next (hs : Searching name k s) (hk : k < ROOT_ENTRIES) (a b d : Word) :
    Searching name (k + 1) { s with ax := a, bx := b, cx := s.cx + 0x20, dx := d } where
  ds := hs.ds
  name := hs.name
  cx := by
    have hentry := entryAt_le hk
    have hstep : (0x20 : Word).toNat = 32 := rfl
    rw [BitVec.toNat_add, hs.cx, hstep, entryAt, entryAt]
    rw [entryAt] at hentry
    omega

/-- The search stops at the first entry that has the name. -/
theorem searchLoop_first {j : ℕ} (hs : Searching name k s) (hname : name.toNat + 11 ≤ 65536)
    (hkj : k ≤ j) (hjn : j < k + n) (hn : k + n ≤ ROOT_ENTRIES)
    (hsame : SameName s.mem (entryAt j) name.toNat)
    (hfirst : ∀ i, k ≤ i → i < j → ¬ SameName s.mem (entryAt i) name.toNat) :
    ∃ a b c d, searchLoop n s = some { s with ax := a, bx := b, cx := c, dx := d } ∧
      c.toNat = entryAt j := by
  induction n generalizing k s with
  | zero => omega
  | succ n ih =>
      obtain ⟨a, b, d, hturn⟩ := searchLoop_succ (n := n) hs (by omega) hname
      rcases Nat.eq_or_lt_of_le hkj with rfl | hlt
      · rw [if_pos hsame] at hturn
        exact ⟨a, b, s.cx, d, hturn, hs.cx⟩
      · rw [if_neg (hfirst k le_rfl hlt)] at hturn
        obtain ⟨a', b', c, d', hrest, hc⟩ := ih (hs.next (by omega) a b d) hlt (by omega)
          (by omega) hsame fun i hi => hfirst i (by omega)
        exact ⟨a', b', c, d', hturn.trans hrest, hc⟩

/-- Without such an entry the search does not stop. -/
theorem searchLoop_missing (hs : Searching name k s) (hname : name.toNat + 11 ≤ 65536)
    (hn : k + n ≤ ROOT_ENTRIES)
    (hmiss : ∀ i, k ≤ i → i < k + n → ¬ SameName s.mem (entryAt i) name.toNat) :
    searchLoop n s = none := by
  induction n generalizing k s with
  | zero => rfl
  | succ n ih =>
      obtain ⟨a, b, d, hturn⟩ := searchLoop_succ (n := n) hs (by omega) hname
      rw [if_neg (hmiss k le_rfl (by omega))] at hturn
      rw [hturn]
      exact ih (hs.next (by omega) a b d) (by omega) fun i hi hin =>
        hmiss i (by omega) (by omega)

end Search

/-! ### The call -/

/-- The bytes that the search reads: the directory, the name and the constants. -/
def SearchLabels.Read (name : Word) (a : ℕ) : Prop :=
  ROOT_DIRECTORY.toNat ≤ a ∧ a < entryAt ROOT_ENTRIES ∨
    name.toNat ≤ a ∧ a < name.toNat + 11 ∨
    a = L.FileAllocationTable.toNat ∨
    a = L.SectorsPerFAT.toNat ∨ a = L.SectorsPerFAT.toNat + 1 ∨
    a = L.BytesPerSector.toNat ∨ a = L.BytesPerSector.toNat + 1

/-- A call of `search_file`: the constants are those of the disk, and the six bytes that it pushes
lie apart from all that it reads. -/
structure SearchCall (s : State) : Prop where
  ds : s.ds = 0
  ss : s.ss = 0
  FileAllocationTable : s.mem L.FileAllocationTable.toNat = 2
  SectorsPerFAT : word s.mem L.SectorsPerFAT.toNat = 9
  BytesPerSector : word s.mem L.BytesPerSector.toNat = 512
  name : s.bx.toNat + 11 ≤ 65536
  room : 6 ≤ s.sp.toNat
  apart : ∀ a, L.Read s.bx a → a + 6 < s.sp.toNat ∨ s.sp.toNat ≤ a

section Call

variable {L} {s : State}

/-- The memory of the search: EBP and the address of the name are pushed. -/
def searchMemory (s : State) : Memory :=
  (s.pushAll [s.ebp.extractLsb' 16 16, s.ebp.setWidth 16, s.bx]).mem

theorem SearchCall.searchMemory_of_read (hs : SearchCall L s) {a : ℕ} (ha : L.Read s.bx a) :
    searchMemory s a = s.mem a :=
  State.pushAll_mem_of_apart (l := [_, _, _]) hs.ss hs.room (hs.apart a ha)

/-- Two multiplications of which one has an upper half that is left over. -/
theorem rootOffset (h : Byte) :
    FAT12_LOCATION + BitVec.ofNat 16 ((BitVec.ofNat 16 ((h ++ (2 : Byte)).toNat * 9)).toNat * 512) =
      ROOT_DIRECTORY := by
  have hh := h.isLt
  have hlocation : FAT12_LOCATION.toNat = 0x7E00 := rfl
  have hroot : ROOT_DIRECTORY.toNat = 0xA200 := rfl
  have htwo : (2 : Byte).toNat = 2 := rfl
  apply BitVec.eq_of_toNat_eq
  rw [BitVec.toNat_add, BitVec.toNat_ofNat, BitVec.toNat_ofNat, toNat_append, hlocation, hroot,
    htwo]
  omega

theorem openSearch_spec (hs : SearchCall L s) :
    ∃ a d, openSearch L s = { s with
      ax := a
      cx := ROOT_DIRECTORY
      dx := d
      sp := s.sp - 2 - 2 - 2
      ebp := s.espHigh ++ (s.sp - 2 - 2)
      mem := searchMemory s } := by
  have hread : ∀ off : Word, linear s.ds off = off.toNat := fun off => by
    rw [hs.ds, linear_zero]
  have htables : searchMemory s (linear s.ds L.FileAllocationTable) = 2 := by
    rw [hread, hs.searchMemory_of_read (by simp [SearchLabels.Read])]
    exact hs.FileAllocationTable
  have hsectors : word (searchMemory s) (linear s.ds L.SectorsPerFAT) = 9 := by
    rw [hread, word_congr (hs.searchMemory_of_read (by simp [SearchLabels.Read]))
      (hs.searchMemory_of_read (by simp [SearchLabels.Read]))]
    exact hs.SectorsPerFAT
  have hbytes : word (searchMemory s) (linear s.ds L.BytesPerSector) = 512 := by
    rw [hread, word_congr (hs.searchMemory_of_read (by simp [SearchLabels.Read]))
      (hs.searchMemory_of_read (by simp [SearchLabels.Read]))]
    exact hs.BytesPerSector
  let product : Word := BitVec.ofNat 16 ((setLow s.ax 2).toNat * 9)
  refine ⟨BitVec.ofNat 16 (product.toNat * 512), BitVec.ofNat 16 (product.toNat * 512 / 65536), ?_⟩
  have hcx : FAT12_LOCATION + BitVec.ofNat 16 (product.toNat * 512) = ROOT_DIRECTORY :=
    rootOffset (high s.ax)
  rw [searchMemory] at htables hsectors hbytes ⊢
  simp only [State.pushAll, List.foldl_cons, List.foldl_nil, State.push]
    at htables hsectors hbytes ⊢
  rw [openSearch]
  simp only [State.push32, State.push, State.byteAt, State.wordAt, State.mul, State.esp, htables,
    hsectors, hbytes]
  rw [← hcx]
  rfl

theorem mem_openSearch (hs : SearchCall L s) : (openSearch L s).mem = searchMemory s := by
  obtain ⟨a, d, hopen⟩ := openSearch_spec hs
  rw [hopen]

/-- The name of an entry, which the routine does not write to. -/
theorem SearchCall.sameName_iff (hs : SearchCall L s) {k : ℕ} (hk : k < ROOT_ENTRIES) :
    SameName (searchMemory s) (entryAt k) s.bx.toNat ↔ SameName s.mem (entryAt k) s.bx.toNat := by
  refine forall₂_congr fun i hi => ?_
  rw [hs.searchMemory_of_read (Or.inl ?_),
    hs.searchMemory_of_read (Or.inr (Or.inl ⟨by omega, by omega⟩))]
  rw [ROOT_ENTRIES] at hk
  rw [entryAt, entryAt, ROOT_ENTRIES]
  omega

/-- The words on the stack: EBP lies at the new EBP, and the address of the name below it. -/
theorem SearchCall.word_searchMemory (hs : SearchCall L s) :
    word (searchMemory s) (s.sp - 2 - 2 - 2).toNat = s.bx ∧
      word (searchMemory s) (s.sp - 2 - 2).toNat = s.ebp.setWidth 16 ∧
      word (searchMemory s) (s.sp - 2).toNat = s.ebp.extractLsb' 16 16 := by
  have hroom := hs.room
  have hwords : ∀ i (hi : i < 3), word (searchMemory s) (s.sp.toNat - 2 * (i + 1)) =
      [s.ebp.extractLsb' 16 16, s.ebp.setWidth 16, s.bx].get ⟨i, hi⟩ := fun i hi =>
    State.word_pushAll (l := [_, _, _]) hs.ss hs.room hi
  have hone : (s.sp - 2).toNat = s.sp.toNat - 2 := State.toNat_sp_push s.bx (by omega)
  have htwo : (s.sp - 2 - 2).toNat = s.sp.toNat - 4 :=
    State.toNat_sp_pushAll (l := [s.bx, s.bx]) (by change 4 ≤ _; omega)
  have hthree : (s.sp - 2 - 2 - 2).toNat = s.sp.toNat - 6 :=
    State.toNat_sp_pushAll (l := [s.bx, s.bx, s.bx]) hroom
  rw [hone, htwo, hthree]
  exact ⟨hwords 2 (by omega), hwords 1 (by omega), hwords 0 (by omega)⟩

/-- The search starts at the first entry. -/
theorem searching_openSearch (hs : SearchCall L s) : Searching s.bx 0 (openSearch L s) := by
  obtain ⟨a, d, hopen⟩ := openSearch_spec hs
  have hname : ((s.espHigh ++ (s.sp - 2 - 2) : BitVec 32).setWidth 16 - 2 : Word) =
      s.sp - 2 - 2 - 2 := by
    rw [BitVec.setWidth_append_eq_right]
  rw [hopen]
  refine ⟨hs.ds, ?_, rfl⟩
  dsimp only
  rw [hname, hs.ss, linear_zero]
  exact hs.word_searchMemory.1

/-- The end of the routine takes the word at 26 of the entry in CX, and gives the frame back. -/
theorem closeSearch_spec (hs : SearchCall L s) {k : ℕ} (hk : k < ROOT_ENTRIES) {a b c d : Word}
    (hc : c.toNat = entryAt k) :
    let t := closeSearch { openSearch L s with ax := a, bx := b, cx := c, dx := d }
    s.SameFrame t ∧ t.ax = word s.mem (entryAt k + 0x1A) := by
  obtain ⟨-, hlow, hhigh⟩ := hs.word_searchMemory
  obtain ⟨a', d', hopen⟩ := openSearch_spec hs
  have hentry := entryAt_le hk
  have hcluster : (c + 0x1A).toNat = entryAt k + 0x1A := by
    have hoffset : (0x1A : Word).toNat = 0x1A := rfl
    rw [BitVec.toNat_add, hc, hoffset]
    omega
  have hread : ∀ i < 32, searchMemory s (entryAt k + i) = s.mem (entryAt k + i) := fun i hi =>
    hs.searchMemory_of_read (Or.inl (by
      rw [ROOT_ENTRIES] at hk
      rw [entryAt, entryAt, ROOT_ENTRIES]
      omega))
  have hsp : (s.espHigh ++ (s.sp - 2 - 2) : BitVec 32).setWidth 16 = s.sp - 2 - 2 :=
    BitVec.setWidth_append_eq_right
  have hhighHalf : (s.espHigh ++ (s.sp - 2 - 2) : BitVec 32).extractLsb' 16 16 = s.espHigh :=
    BitVec.extractLsb'_append_eq_left
  have hebp : (s.ebp.extractLsb' 16 16 ++ s.ebp.setWidth 16 : BitVec 32) = s.ebp := by
    rw [BitVec.setWidth_eq_extractLsb' (by omega)]
    exact BitVec.extractLsb'_append_extractLsb'
  rw [hopen]
  simp only [closeSearch, State.setEsp, State.drop, State.top, State.wordAt, hsp, hhighHalf,
    BitVec.sub_add_cancel, hs.ds, hs.ss, linear_zero, hcluster, hlow, hhigh, hebp]
  refine ⟨⟨hs.ds.symm, rfl, hs.ss.symm, rfl, rfl, rfl⟩, ?_⟩
  exact word_congr (hread 26 (by omega)) (hread 27 (by omega))

/-- The memory above the stack is kept, and the return address with it. -/
theorem SearchCall.top_searchMemory (hs : SearchCall L s) :
    word (searchMemory s) (linear s.ss s.sp) = s.top := by
  have hkept : ∀ a, s.sp.toNat ≤ a → searchMemory s a = s.mem a := fun a ha =>
    State.pushAll_mem_of_apart (l := [_, _, _]) hs.ss hs.room (Or.inr ha)
  rw [State.top, hs.ss, linear_zero]
  exact word_congr (hkept _ le_rfl) (hkept _ (Nat.le_succ _))

end Call

/-- The search reports the file: it looks at no more than the entries of the directory and comes to
its return, with the first cluster of the first entry that has the name. -/
def SearchReports (s : State) : Prop :=
  ∃ t, searchFile L ROOT_ENTRIES s = some t ∧ s.SameFrame t ∧ t.top = s.top ∧
    ∀ k < ROOT_ENTRIES, SameName s.mem (entryAt k) s.bx.toNat →
      (∀ j < k, ¬ SameName s.mem (entryAt j) s.bx.toNat) → t.ax = word s.mem (entryAt k + 0x1A)

variable {L}

/-- With the name in the directory the search ends at the first entry that has it. -/
theorem searchReports_of_first {s : State} (hs : SearchCall L s) {k : ℕ} (hk : k < ROOT_ENTRIES)
    (hsame : SameName s.mem (entryAt k) s.bx.toNat)
    (hfirst : ∀ j < k, ¬ SameName s.mem (entryAt j) s.bx.toNat) : SearchReports L s := by
  have hmem := mem_openSearch hs
  obtain ⟨a, b, c, d, hloop, hc⟩ := searchLoop_first (searching_openSearch hs) hs.name
    (Nat.zero_le k) (by omega) (n := ROOT_ENTRIES) (by omega)
    (by rw [hmem]; exact (hs.sameName_iff hk).mpr hsame)
    (fun j _ hj => by rw [hmem, hs.sameName_iff (by omega)]; exact hfirst j hj)
  obtain ⟨hframe, hax⟩ := closeSearch_spec hs hk (a := a) (b := b) (d := d) hc
  refine ⟨_, ?_, hframe, ?_, fun k' hk' hsame' hfirst' => ?_⟩
  · rw [searchFile, hloop]
    rfl
  · rw [State.top, hframe.ss, hframe.sp, ← hs.top_searchMemory]
    exact congrArg (fun mem => word mem (linear s.ss s.sp)) hmem
  · rcases Nat.lt_trichotomy k' k with hlt | rfl | hgt
    · exact absurd hsame' (hfirst k' hlt)
    · exact hax
    · exact absurd hsame (hfirst' k hgt)

/-- Without the name in the directory the search has not ended after its last entry. -/
theorem searchFile_missing {s : State} (hs : SearchCall L s)
    (hmiss : ∀ k < ROOT_ENTRIES, ¬ SameName s.mem (entryAt k) s.bx.toNat) :
    searchFile L ROOT_ENTRIES s = none := by
  have hmem := mem_openSearch hs
  have hloop := searchLoop_missing (searching_openSearch hs) hs.name (n := ROOT_ENTRIES) (by omega)
    fun k _ hk => by
      rw [hmem, hs.sameName_iff (by omega)]
      exact hmiss k (by omega)
  rw [searchFile, hloop]
  rfl

/-- **The search needs its file**: `search_file` ends within the directory, and reports the first
cluster of the first entry that has the name, exactly when some entry has it. -/
theorem searchFile_iff {s : State} (hs : SearchCall L s) :
    SearchReports L s ↔ ∃ k < ROOT_ENTRIES, SameName s.mem (entryAt k) s.bx.toNat := by
  constructor
  · rintro ⟨t, hrun, -⟩
    by_contra hnone
    have hmiss := searchFile_missing hs fun k hk hsame => hnone ⟨k, hk, hsame⟩
    rw [hmiss] at hrun
    cases hrun
  · rintro ⟨k, hk, hsame⟩
    have hex : ∃ k, k < ROOT_ENTRIES ∧ SameName s.mem (entryAt k) s.bx.toNat := ⟨k, hk, hsame⟩
    obtain ⟨hfind, hfound⟩ := Nat.find_spec hex
    exact searchReports_of_first hs hfind hfound fun j hj hsame' =>
      Nat.find_min hex hj ⟨by omega, hsame'⟩

/-! ### A boot sector -/

/-- The parameter block of a boot sector. -/
def bootSearchLabels : SearchLabels where
  FileAllocationTable := 0x7C10
  SectorsPerFAT := 0x7C16
  BytesPerSector := 0x7C0B

/-- The name `BOOT2   BIN`. -/
def BOOT2FILENAME : List Byte := [0x42, 0x4F, 0x4F, 0x54, 0x32, 0x20, 0x20, 0x20, 0x42, 0x49, 0x4E]

/-- The boot sector calls for its file; the directory holds the given entry, and nothing else. -/
def bootSearch (entry : ℕ → Byte) : State where
  ax := 0
  bx := 0x7D70
  cx := 0
  dx := 0
  sp := 0x7BFE
  espHigh := 0
  ebp := 0x7C00
  ds := 0
  es := 0
  ss := 0
  carry := false
  mem := fun a =>
    if 0xA200 ≤ a then entry (a - 0xA200)
    else if 0x7D70 ≤ a ∧ a < 0x7D7B then BOOT2FILENAME.getD (a - 0x7D70) 0
    else if a = 0x7C0C ∨ a = 0x7C10 then 2
    else if a = 0x7C16 then 9
    else 0

theorem searchCall_bootSearch (entry : ℕ → Byte) :
    SearchCall bootSearchLabels (bootSearch entry) := by
  have htable : (0 : Byte) ++ (9 : Byte) = (9 : Word) := by decide
  have hsector : (2 : Byte) ++ (0 : Byte) = (512 : Word) := by decide
  have hname : (0x7D70 : Word).toNat + 11 ≤ 65536 := by decide
  have hroom : 6 ≤ (0x7BFE : Word).toNat := by decide
  refine ⟨rfl, rfl, rfl, htable, hsector, hname, hroom, ?_⟩
  simp only [SearchLabels.Read, bootSearchLabels, bootSearch, ROOT_DIRECTORY, BitVec.reduceToNat]
  omega

/-- A directory whose first entry is the file. -/
theorem searchReports_boot :
    SearchReports bootSearchLabels (bootSearch fun i => BOOT2FILENAME.getD i 0) := by
  refine (searchFile_iff (searchCall_bootSearch _)).mpr ⟨0, by decide, fun i hi => ?_⟩
  have hentry : entryAt 0 + i = 0xA200 + i := rfl
  have hname : (0x7D70 : Word).toNat + i = 0x7D70 + i := rfl
  simp only [bootSearch, hentry, hname]
  rw [if_pos (by omega), if_neg (by omega), if_pos (by omega), Nat.add_sub_cancel_left,
    Nat.add_sub_cancel_left]

/-- An empty directory: the search runs on behind it. -/
theorem not_searchReports_empty : ¬ SearchReports bootSearchLabels (bootSearch fun _ => 0) := by
  rintro ⟨t, hrun, -⟩
  have hmiss : ∀ k < ROOT_ENTRIES, ¬ SameName (bootSearch fun _ => 0).mem (entryAt k)
      (bootSearch fun _ => 0).bx.toNat := by
    intro k _ hsame
    have hentry : (bootSearch fun _ => 0).mem (entryAt k + 0) = 0 :=
      if_pos (Nat.le_add_right 0xA200 (32 * k))
    have hname : (bootSearch fun _ => 0).mem ((bootSearch fun _ => 0).bx.toNat + 0) = 0x42 := by
      simp [bootSearch, BOOT2FILENAME]
    have hsame' := hsame 0 (by omega)
    rw [hentry, hname] at hsame'
    exact absurd hsame' (by decide)
  rw [searchFile_missing (searchCall_bootSearch _) hmiss] at hrun
  cases hrun

end B2OS.Boot
