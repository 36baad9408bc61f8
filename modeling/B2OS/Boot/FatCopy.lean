import B2OS.Boot.LoadFat

/-!
# The Copy of the FAT

What the first stage has in memory when it comes to its call of `search_file`: the 32 blocks behind
the boot sector lie at `FAT12_LOCATION`, one behind the other, the segments and the stack are set
up, and the boot sector is as the BIOS left it but for the variables of the stage.

## Main results

* `beforeRead_spared`: up to the call of `read_disk` only the number of the drive is stored.
* `bootFirst_copies`: the state before the call of `search_file`.
-/

namespace B2OS.Boot

open RealMode

/-- The byte `i` of the blocks behind the boot sector. -/
def copiedByte (disk : ℕ → ℕ → Byte) (i : ℕ) : Byte := disk (1 + i / 512) (i % 512)

/-- The state in which the first stage calls `search_file`, when the BIOS has handed over `s`. -/
structure FatCopied (L : Labels) (disk : ℕ → ℕ → Byte) (kept : Set ℕ) (stackLow : ℕ)
    (s t : State) : Prop where
  ds : t.ds = 0
  ss : t.ss = 0
  sp : t.sp = 0x7C00
  espHigh : t.espHigh = 0
  holds : L.Holds (low s.dx) t.mem
  copy : ∀ i < 512 * 32, t.mem (FAT12_LOCATION.toNat + i) = copiedByte disk i
  mem : ∀ a ∈ kept, ¬ L.Var a → a ≠ L.BOOT_DISK.toNat → a < FAT12_LOCATION.toNat →
    a < stackLow ∨ 0x7C00 ≤ a → t.mem a = s.mem a

variable {L : Labels} {B : FirstLabels} {int10 int13 : State → State} {kept : Set ℕ}
  {stackLow : ℕ} {s t : State} {disk : ℕ → ℕ → Byte} {drive : Byte}

/-! ### Up to the call of `read_disk` -/

/-- Only the number of the drive is stored, and what lies below the top of the stack. -/
theorem beforeRead_spared (hb : BootSector L B kept stackLow s.mem)
    (hprints : Prints int10 kept stackLow) (hresets : Resets int13 kept stackLow) {fuel : ℕ}
    {si di : Word} (h : beforeRead L B int10 int13 fuel 0 si di s = some t) :
    Spared kept stackLow (bootStart L 0 s) t := by
  obtain ⟨-, hes, hroom, -, -, -, -⟩ := bootStart_spec hb
  obtain ⟨u, hcall, hspared, -, -⟩ :=
    call_resetDisk_spec hresets (hroom.le (by omega)) B.afterResetDisk
  simp only [beforeRead, hcall, Option.bind_eq_bind, Option.bind_some] at h
  rw [Option.bind_eq_some_iff] at h
  obtain ⟨v, hlog, h⟩ := h
  obtain rfl := Option.some.inj h
  have hlogged := (logFat_spared hprints (hroom.of_spared hspared) hlog).spared
  obtain ⟨hframe, hmem⟩ := hspared.trans hlogged
  exact ⟨⟨hframe.ds, hes.symm, hframe.ss, hframe.sp, hframe.espHigh, hframe.ebp⟩, hmem⟩

/-! ### The blocks -/

/-- A turn with the log is a turn. -/
theorem readSector_of_logged {p q : State × List State}
    (h : readSectorLogged L int13 p = some q) : readSector L int13 p.1 = some q.1 := by
  obtain ⟨u, log⟩ := p
  rw [readSectorLogged, Option.bind_eq_bind, Option.bind_eq_some_iff] at h
  obtain ⟨v, hrequest, h⟩ := h
  rw [readSector_eq, hrequest, Option.bind_some]
  dsimp only at h
  split_ifs at h ⊢
  obtain rfl := Option.some.inj h
  rfl

/-- After `k` turns of `read_disk` the first `k` blocks are copied. -/
structure Copied (L : Labels) (disk : ℕ → ℕ → Byte) (kept : Set ℕ) (stackLow : ℕ) (drive : Byte)
    (s : State) (k : ℕ) (p : State × List State) : Prop where
  read : FatRead L kept stackLow drive s k p
  copy : ∀ i < 512 * k, p.1.mem (FAT12_LOCATION.toNat + i) = copiedByte disk i

section Loop

variable {k : ℕ} {p : State × List State}

/-- One turn copies one block more. -/
theorem Copied.step (hs : FatStart L kept stackLow drive s) (hcopy : fatCopy ⊆ kept)
    (hvar : ∀ a, L.Var a → a < FAT12_LOCATION.toNat) (hp : Copied L disk kept stackLow drive s k p)
    (hk : k < 32) (hcount : k < s.cx.toNat)
    (hint : Delivers int13 disk drive kept stackLow (1 + k)) :
    ∃ q, readSectorLogged L int13 p = some q ∧ Copied L disk kept stackLow drive s (k + 1) q := by
  obtain ⟨q, hread, hq⟩ := bootFirst_reads hs hp.read hk hcount hint
  refine ⟨q, hread, hq, fun i hi => ?_⟩
  have hlocation : FAT12_LOCATION.toNat = 0x7E00 := rfl
  have hax := hp.read.ax
  have hbuffer : linear p.1.es p.1.bx = FAT12_LOCATION.toNat + 512 * k := by
    rw [hp.read.frame.es, hs.es, linear_zero, hp.read.bx]
  obtain ⟨t, hturn, -, -, -, -, hsector, hmem⟩ := readSector_spec hs.placed
    (hp.read.canRead hs hk) (by omega) (by rw [hax]; exact hint)
  rw [readSector_of_logged hread] at hturn
  obtain rfl := Option.some.inj hturn
  rw [hbuffer] at hsector hmem
  by_cases hlast : i < 512 * k
  · have htop := hs.room.top
    rw [hmem _ (hcopy ⟨by omega, by omega⟩) (fun ha => ?_) (Or.inl (by omega))
      (Or.inr (by rw [hp.read.frame.sp]; omega))]
    · exact hp.copy i hlast
    · have hbelow := hvar _ ha
      omega
  · have hblock := hsector (i - 512 * k) (by omega)
    rw [hax, show FAT12_LOCATION.toNat + 512 * k + (i - 512 * k) = FAT12_LOCATION.toNat + i by
      omega] at hblock
    rw [hblock, copiedByte, show i / 512 = k by omega, show i % 512 = i - 512 * k by omega]

/-- Loaded with a count of 32, `read_disk` copies the 32 blocks. -/
theorem readDiskLogged_copies (hs : FatStart L kept stackLow drive s) (hcopy : fatCopy ⊆ kept)
    (hvar : ∀ a, L.Var a → a < FAT12_LOCATION.toNat)
    (hp : FatRead L kept stackLow drive s 0 (s, [])) (hcx : s.cx.toNat = 32)
    (hint : ∀ k < 32, Delivers int13 disk drive kept stackLow (1 + k)) {fuel : ℕ}
    (hfuel : 32 ≤ fuel) :
    ∃ q, readDiskLogged L int13 fuel s = some q ∧ s.SameFrame q.1 ∧
      (∀ i < 512 * 32, q.1.mem (FAT12_LOCATION.toNat + i) = copiedByte disk i) ∧
      ∀ a ∈ kept, ¬ L.Var a → a < FAT12_LOCATION.toNat → a < stackLow ∨ s.sp.toNat ≤ a →
        q.1.mem a = s.mem a := by
  have hrun : ∃ p, doWhile (readSectorLogged L int13) (fun p => p.1.cx != 0) fuel (s, []) = some p ∧
      Copied L disk kept stackLow drive s 32 p := by
    refine doWhile_inv (fun k p => Copied L disk kept stackLow drive s k p) (fun k hk p hp => ?_)
      (by omega) hfuel ⟨hp, fun i hi => absurd hi (Nat.not_lt_zero i)⟩
    obtain ⟨q, hread, hq⟩ := hp.step hs hcopy hvar hk (by omega) (hint k hk)
    refine ⟨q, hread, hq, ?_⟩
    have hcxq := hq.read.cx
    rw [bne_iff_ne, ne_eq, ← BitVec.toNat_inj]
    change q.1.cx.toNat ≠ 0 ↔ _
    omega
  obtain ⟨⟨t, log⟩, hloop, ht⟩ := hrun
  obtain ⟨hds, hes, hss, hsp, hhigh, hebp⟩ := ht.read.frame
  refine ⟨({ t with carry := false }, log), ?_, ⟨hds, hes, hss, hsp, hhigh, hebp⟩, ht.copy,
    ht.read.mem⟩
  rw [readDiskLogged, hloop]
  rfl

end Loop

/-! ### The stage -/

/-- With CH zero the first stage comes to its call of `search_file` with the blocks behind the boot
sector in memory. -/
theorem bootFirst_copies (hb : BootSector L B kept stackLow s.mem) (hcopy : fatCopy ⊆ kept)
    (hvar : ∀ a, L.Var a → a < FAT12_LOCATION.toNat) (hprints : Prints int10 kept stackLow)
    (hresets : Resets int13 kept stackLow)
    (hdelivers : ∀ k < 32, Delivers int13 disk (low s.dx) kept stackLow (1 + k))
    (hch : high s.cx = 0) (si di : Word) :
    ∃ n, ∀ fuel ≥ n, ∃ t log, bootFirst L B int10 int13 fuel 0 si di s = some (t, log) ∧
      FatCopied L disk kept stackLow s t := by
  obtain ⟨n, hends⟩ := beforeRead_ends hb hprints hresets si di
  refine ⟨n + 32, fun fuel hfuel => ?_⟩
  obtain ⟨u, hbefore⟩ := hends fuel (by omega)
  have hcall := beforeRead_spec hb hprints hresets hbefore
  have hspared := beforeRead_spared hb hprints hresets hbefore
  obtain ⟨-, -, hbroom, hbsp, -, -, -⟩ := bootStart_spec hb
  obtain ⟨hstart, hread⟩ := hcall.start hb.placed hb.below B.afterReadFat
  have hcx : (u.push B.afterReadFat).cx.toNat = 32 := by
    change u.cx.toNat = 32
    rw [hcall.cx, toNat_fatCount, hch]
    rfl
  obtain ⟨⟨v, log⟩, hdisk, hframe, hblocks, hmem⟩ :=
    readDiskLogged_copies hstart hcopy hvar hread hcx hdelivers (show 32 ≤ fuel by omega)
  dsimp only at hframe hblocks hmem
  have hroom : HasRoom (Set.Ico stackLow 0x7C00) stackLow 0x7C00 2 u :=
    ⟨hcall.room.ss, (hcall.room.le (by omega)).room, hcall.room.top, fun _ hlo hhi => ⟨hlo, hhi⟩⟩
  have hlocation : FAT12_LOCATION.toNat = 0x7E00 := rfl
  -- the return address is still there
  have hstack : Spared (Set.Ico stackLow 0x7C00) stackLow (u.push B.afterReadFat) v := by
    refine ⟨hframe, ?_⟩
    rintro a ⟨hlo, hhi⟩ hout
    rw [(hroom.push _).ss, linear_zero] at hout
    exact hmem a (hb.placed.stack a hlo hhi) (hb.placed.stack_not_var hlo hhi) (by omega) hout
  have hsp := State.toNat_sp_push B.afterReadFat (s := u) (by have := hcall.room.room; omega)
  have husp : u.sp.toNat = 0x7C00 := congrArg BitVec.toNat hcall.sp
  -- from the start of the stage on
  have hstored : (bootStart L 0 s).mem = storeByte s.mem L.BOOT_DISK.toNat (low s.dx) :=
    congrArg (storeByte s.mem · (low s.dx)) (linear_zero _)
  have hsame : ∀ a ∈ kept, ¬ L.Var a → a < FAT12_LOCATION.toNat → a < stackLow ∨ 0x7C00 ≤ a →
      v.mem a = (bootStart L 0 s).mem a := by
    intro a ha hnot hbelow hout
    rw [hmem a ha hnot hbelow (by omega), State.push_mem_of_apart _ hcall.room.ss (by omega)
      (by have := hcall.room.room; omega)]
    refine hspared.mem a ha ?_
    rw [hbroom.ss, linear_zero, hbsp]
    exact hout
  refine ⟨v.drop, log, ?_, hframe.ds.trans hcall.ds, hframe.ss.trans hcall.room.ss,
    (hroom.drop hstack).frame.sp.trans hcall.sp, hframe.espHigh.trans ?_, ?_, hblocks, ?_⟩
  · rw [bootFirst, hbefore, Option.bind_eq_bind, Option.bind_some, hdisk]
    exact if_pos (hroom.top_eq hstack)
  · exact hspared.frame.espHigh
  · refine hcall.holds.congr fun a ha => ?_
    obtain ⟨hkept, hout⟩ := hb.placed.const a ha
    rw [show v.drop.mem = v.mem from rfl, hmem a hkept (hb.placed.const_not_var ha) (hb.below a ha)
      (by omega)]
    exact State.push_mem_of_apart _ hcall.room.ss (by omega) (by have := hcall.room.room; omega)
  · intro a ha hnot hdisk hbelow hout
    rw [show v.drop.mem = v.mem from rfl, hsame a ha hnot hbelow hout, hstored,
      storeByte_of_ne hdisk]

end B2OS.Boot
