import B2OS.Boot.LoadFile

/-!
# Loading the FAT

The start of the first stage, `boot_first`, up to its call of `search_file`: the BIOS has jumped to
`0000:7C00` with the number of the boot drive in DL and anything in the other registers. The stage
sets up its segments and its stack, resets the disk, prints a line, and reads the sectors of the
FAT and of the root directory to `FAT12_LOCATION`.

Of the count of the sectors only the lower half is loaded, and the upper half is what the BIOS left
in CH. The `loop` of `read_disk` takes both.

## Main results

* `printStr_spared`: `print_str` changes nothing but the stack below it.
* `bootFirst_reads`: a turn of `read_disk` asks for the next block.
* `loadsFat_iff`: the stage reads the 32 sectors, and no more, exactly when CH was zero.
-/

namespace B2OS.Boot

open RealMode

/-- The labels of the first stage beyond those of `disk_read.asm`. -/
structure FirstLabels where
  load_fat_str : Word
  afterResetDisk : Word
  afterPrintStr : Word
  afterReadFat : Word

variable (L : Labels) (B : FirstLabels) (int10 int13 : State → State)

/-! ### The routines -/

/-- Resets the disk system. -/
def resetDisk (s : State) : State := int13 { s with ax := 0 }

/-- `print_loop`, with the address of the next character in SI. -/
def printLoop : ℕ → Word → State → Option State
  | 0, _, _ => none
  | fuel + 1, si, s =>
      let s := { s with ax := setLow s.ax (s.byteAt si) }
      let si := si + 1
      if low s.ax = 0 then some s else printLoop fuel si (int10 s)

/-- Prints the text at SI, up to its zero. -/
def printStr (fuel : ℕ) (si di : Word) (s : State) : Option State := do
  let s := s.pusha si di
  let s := { s with ax := setHigh s.ax 0x0E }
  let s := { s with cx := 1 }
  let s ← printLoop int10 fuel si s
  some s.popa

/-- One turn of `read_disk`, with the states in which INT 13h was called. -/
def readSectorLogged : State × List State → Option (State × List State)
  | (s, log) => do
      let v ← readRequest L s
      let s := int13 v
      if s.carry then none else some (readOk L s, log ++ [v])

/-- `read_disk`, with the states in which INT 13h was called. -/
def readDiskLogged (fuel : ℕ) (s : State) : Option (State × List State) := do
  let (s, log) ← doWhile (readSectorLogged L int13) (fun p => p.1.cx != 0) fuel (s, [])
  some ({ s with carry := false }, log)

/-- The log is only looked at. -/
theorem readDiskLogged_fst (fuel : ℕ) (s : State) :
    (readDiskLogged L int13 fuel s).map Prod.fst = readDisk L int13 fuel s := by
  have hturn : ∀ p, (readSectorLogged L int13 p).map Prod.fst = readSector L int13 p.1 := by
    rintro ⟨s, log⟩
    rw [readSectorLogged, readSector_eq]
    cases readRequest L s with
    | none => rfl
    | some v =>
        simp only [Option.bind_eq_bind, Option.bind_some]
        split_ifs <;> rfl
  have hloop : (doWhile (readSectorLogged L int13) (fun p => p.1.cx != 0) fuel (s, [])).map
      Prod.fst = doWhile (readSector L int13) (fun s => s.cx != 0) fuel s :=
    doWhile_map Prod.fst (fun s => s.cx != 0) hturn fuel (s, [])
  rw [readDisk, readDiskLogged, ← hloop]
  cases doWhile (readSectorLogged L int13) (fun p => p.1.cx != 0) fuel (s, []) <;> rfl

/-- `boot_first` up to its call of `reset_disk`. FS and GS are not part of the state. -/
def bootStart (cs : Word) (s : State) : State :=
  let s := { s with ax := 0 }
  let s := { s with ds := s.ax }
  let s := { s with es := s.ax }
  let s := { s with ss := s.ax }
  let s := s.setEsp 0x7C00
  let s := { s with ebp := s.esp }
  let s := { s with ax := cs }
  let s := { s with ds := s.ax }
  s.storeByteAt L.BOOT_DISK (low s.dx)

/-- The lines between `%ifdef LOG` and `%endif`. -/
def logFat (fuel : ℕ) (si di : Word) (s : State) : Option State := do
  let s := s.pusha si di
  let si := B.load_fat_str
  let s ← s.call B.afterPrintStr (printStr int10 fuel si di)
  some s.popa

/-- The arguments of `read_disk`. -/
def fatArguments (s : State) : State :=
  let s := { s with cx := setLow s.cx (low FAT12_SECTOR_COUNT) }
  let s := { s with ax := setLow s.ax 1 }
  let s := { s with bx := 0 }
  let s := { s with es := s.bx }
  { s with bx := FAT12_LOCATION }

/-- `boot_first` up to its call of `read_disk`. -/
def beforeRead (fuel : ℕ) (cs si di : Word) (s : State) : Option State := do
  let s := bootStart L cs s
  let s ← s.call B.afterResetDisk fun s => some (resetDisk int13 s)
  let s ← logFat B int10 fuel si di s
  some (fatArguments s)

/-- `boot_first` up to its call of `search_file`, with the states in which it called INT 13h to
read. -/
def bootFirst (fuel : ℕ) (cs si di : Word) (s : State) : Option (State × List State) := do
  let s ← beforeRead L B int10 int13 fuel cs si di s
  let (s, log) ← readDiskLogged L int13 fuel (s.push B.afterReadFat)
  if s.top = B.afterReadFat then some (s.drop, log) else none

/-! ### What the interrupts leave alone -/

/-- The segments and the stack frame are the same, and so are the bytes of `kept`, but for the
stack from `stackLow` to its top. -/
structure Spared (kept : Set ℕ) (stackLow : ℕ) (s t : State) : Prop where
  frame : s.SameFrame t
  mem : ∀ a ∈ kept, a < stackLow ∨ linear s.ss s.sp ≤ a → t.mem a = s.mem a

/-- The general registers are the same too. -/
structure Restored (kept : Set ℕ) (stackLow : ℕ) (s t : State) : Prop where
  spared : Spared kept stackLow s t
  ax : t.ax = s.ax
  bx : t.bx = s.bx
  cx : t.cx = s.cx
  dx : t.dx = s.dx

/-- INT 10h prints the character in AL. -/
def Prints (int10 : State → State) (kept : Set ℕ) (stackLow : ℕ) : Prop :=
  ∀ s, high s.ax = 0x0E → Spared kept stackLow s (int10 s) ∧ (int10 s).ax = s.ax

/-- INT 13h resets the disk system, and reports success in AH. -/
def Resets (int13 : State → State) (kept : Set ℕ) (stackLow : ℕ) : Prop :=
  ∀ s, s.ax = 0 → Restored kept stackLow { s with ax := setHigh s.ax 0 } (int13 s)

variable {L B int10 int13} {kept : Set ℕ} {stackLow stackTop : ℕ} {s t u : State}

theorem Spared.trans (h : Spared kept stackLow s t) (h' : Spared kept stackLow t u) :
    Spared kept stackLow s u where
  frame := h.frame.trans h'.frame
  mem := fun a ha hout => by
    have hout' : a < stackLow ∨ linear t.ss t.sp ≤ a := by
      rw [h.frame.ss, h.frame.sp]
      exact hout
    exact (h'.mem a ha hout').trans (h.mem a ha hout)

/-- The general registers do not matter. -/
theorem Spared.registers (s : State) (a b c d : Word) :
    Spared kept stackLow s { s with ax := a, bx := b, cx := c, dx := d } :=
  ⟨⟨rfl, rfl, rfl, rfl, rfl, rfl⟩, fun _ _ _ => rfl⟩

/-! ### Calls -/

/-- The stack is in segment 0 and has room for `room` bytes more. -/
structure HasRoom (kept : Set ℕ) (stackLow stackTop room : ℕ) (s : State) : Prop where
  ss : s.ss = 0
  room : stackLow + room ≤ s.sp.toNat
  top : s.sp.toNat ≤ stackTop
  kept : ∀ a, stackLow ≤ a → a < stackTop → a ∈ kept

section Calls

variable {room : ℕ} {ret : Word}

theorem HasRoom.le {less : ℕ} (h : HasRoom kept stackLow stackTop room s) (hle : less ≤ room) :
    HasRoom kept stackLow stackTop less s :=
  ⟨h.ss, (Nat.add_le_add_left hle _).trans h.room, h.top, h.kept⟩

theorem HasRoom.of_spared (hs : HasRoom kept stackLow stackTop room s)
    (h : Spared kept stackLow s t) : HasRoom kept stackLow stackTop room t :=
  ⟨h.frame.ss.trans hs.ss, by rw [h.frame.sp]; exact hs.room, by rw [h.frame.sp]; exact hs.top,
    hs.kept⟩

theorem HasRoom.push (h : HasRoom kept stackLow stackTop (room + 2) s) (v : Word) :
    HasRoom kept stackLow stackTop room (s.push v) := by
  have hroom := h.room
  have htop := h.top
  have hsp := State.toNat_sp_push v (s := s) (by omega)
  exact ⟨h.ss, by omega, by omega, h.kept⟩

theorem HasRoom.pushAll {l : List Word}
    (h : HasRoom kept stackLow stackTop (room + 2 * l.length) s) :
    HasRoom kept stackLow stackTop room (s.pushAll l) := by
  induction l generalizing s with
  | nil => exact h
  | cons v l ih => exact ih (h.push v)

theorem HasRoom.pusha (h : HasRoom kept stackLow stackTop (room + 16) s) (si di : Word) :
    HasRoom kept stackLow stackTop room (s.pusha si di) :=
  HasRoom.pushAll (l := [_, _, _, _, _, _, _, _]) h

/-- What is pushed lies in the stack. -/
theorem HasRoom.pushAll_mem {l : List Word} (h : HasRoom kept stackLow stackTop (2 * l.length) s)
    {a : ℕ} (ha : a < stackLow ∨ stackTop ≤ a) : (s.pushAll l).mem a = s.mem a := by
  have hroom := h.room
  have htop := h.top
  exact State.pushAll_mem_of_apart h.ss (by omega) (by omega)

/-- A routine that spares its stack finds the return address there. -/
theorem HasRoom.top_eq (hs : HasRoom kept stackLow stackTop 2 s)
    (h : Spared kept stackLow (s.push ret) t) : t.top = ret := by
  have hroom := hs.room
  have htop := hs.top
  have hsp := State.toNat_sp_push ret (s := s) (by omega)
  have hkept : ∀ a, s.sp.toNat - 2 ≤ a → a < s.sp.toNat → t.mem a = (s.push ret).mem a := by
    intro a hlo hhi
    refine h.mem a (hs.kept a (by omega) (by omega)) (Or.inr ?_)
    rw [(hs.push ret).ss, linear_zero]
    omega
  rw [State.top, h.frame.ss, h.frame.sp, (hs.push ret).ss, linear_zero, hsp,
    word_congr (hkept _ (by omega) (by omega)) (hkept _ (by omega) (by omega))]
  exact State.word_push_self ret hs.ss (by omega)

/-- Behind the call the stack is as it was. -/
theorem HasRoom.drop (hs : HasRoom kept stackLow stackTop 2 s)
    (h : Spared kept stackLow (s.push ret) t) : Spared kept stackLow s t.drop where
  frame := ⟨h.frame.ds, h.frame.es, h.frame.ss,
    (congrArg (· + 2) h.frame.sp).trans (State.push_sp_add s ret), h.frame.espHigh, h.frame.ebp⟩
  mem := fun a ha hout => by
    have hroom := hs.room
    have hsp := State.toNat_sp_push ret (s := s) (by omega)
    rw [hs.ss, linear_zero] at hout
    refine (h.mem a ha ?_).trans (State.push_mem_of_apart ret hs.ss (by omega) (by omega))
    rw [(hs.push ret).ss, linear_zero]
    omega

/-- What lies between `pusha` and `popa` may change the general registers. -/
theorem HasRoom.popa {si di : Word} (hs : HasRoom kept stackLow stackTop 16 s)
    (h : Spared kept stackLow (s.pusha si di) t) : Restored kept stackLow s t.popa := by
  have hroom := hs.room
  have htop := hs.top
  have hsp : (s.pusha si di).sp.toNat = s.sp.toNat - 16 :=
    State.toNat_sp_pushAll (l := [_, _, _, _, _, _, _, _]) (by change 16 ≤ s.sp.toNat; omega)
  have hss : (s.pusha si di).ss = 0 := (State.ss_pushAll _).trans hs.ss
  have hmem : ∀ a ∈ kept, a < stackLow ∨ s.sp.toNat - 16 ≤ a →
      t.mem a = (s.pusha si di).mem a := fun a ha hout =>
    h.mem a ha (by rw [hss, linear_zero, hsp]; exact hout)
  have hpopa := State.popa_pusha hs.ss (by omega) h.frame fun a hlo hhi =>
    hmem a (hs.kept a (by omega) (by omega)) (Or.inr hlo)
  rw [hpopa]
  refine ⟨⟨⟨?_, ?_, ?_, rfl, ?_, ?_⟩, fun a ha hout => ?_⟩, rfl, rfl, rfl, rfl⟩
  · exact h.frame.ds.trans (State.ds_pushAll _)
  · exact h.frame.es.trans (State.es_pushAll _)
  · exact h.frame.ss.trans (State.ss_pushAll _)
  · exact h.frame.espHigh.trans (State.espHigh_pushAll _)
  · exact h.frame.ebp.trans (State.ebp_pushAll _)
  · rw [hs.ss, linear_zero] at hout
    refine (hmem a ha (by omega)).trans ?_
    exact State.pushAll_mem_of_apart (l := [_, _, _, _, _, _, _, _]) hs.ss
      (by change 16 ≤ s.sp.toNat; omega) (by change a + 16 < s.sp.toNat ∨ _; omega)

end Calls

/-! ### The line that is printed -/

theorem printLoop_spared (hint : Prints int10 kept stackLow) {fuel : ℕ} {si : Word}
    (hah : high s.ax = 0x0E) (h : printLoop int10 fuel si s = some t) :
    Spared kept stackLow s t := by
  induction fuel generalizing si s with
  | zero => cases h
  | succ fuel ih =>
      have hchar : Spared kept stackLow s { s with ax := setLow s.ax (s.byteAt si) } :=
        Spared.registers s _ s.bx s.cx s.dx
      rw [printLoop] at h
      dsimp only at h
      split_ifs at h with hzero
      · obtain rfl := Option.some.inj h
        exact hchar
      · have hah' : high (setLow s.ax (s.byteAt si)) = 0x0E := by rw [high_setLow, hah]
        obtain ⟨hspared, hax⟩ := hint { s with ax := setLow s.ax (s.byteAt si) } hah'
        exact (hchar.trans hspared).trans (ih (by rw [hax]; exact hah') h)

/-- The loop ends at a zero that the interrupt spares. -/
theorem printLoop_ends (hint : Prints int10 kept stackLow) {n fuel : ℕ} {si : Word}
    (hah : high s.ax = 0x0E) (hds : s.ds = 0) (hend : si.toNat + n < 65536)
    (hzero : s.mem (si.toNat + n) = 0) (hkept : si.toNat + n ∈ kept)
    (hout : si.toNat + n < stackLow ∨ linear s.ss s.sp ≤ si.toNat + n) (hfuel : n < fuel) :
    ∃ t, printLoop int10 fuel si s = some t := by
  induction n generalizing fuel si s with
  | zero =>
      obtain ⟨fuel, rfl⟩ := Nat.exists_eq_succ_of_ne_zero hfuel.ne'
      refine ⟨_, if_pos ?_⟩
      rw [low_setLow, State.byteAt, hds, linear_zero]
      exact hzero
  | succ n ih =>
      obtain ⟨fuel, rfl⟩ := Nat.exists_eq_succ_of_ne_zero (Nat.ne_zero_of_lt hfuel)
      rw [printLoop]
      dsimp only
      split_ifs
      · exact ⟨_, rfl⟩
      · have hah' : high (setLow s.ax (s.byteAt si)) = 0x0E := by rw [high_setLow, hah]
        obtain ⟨hspared, hax⟩ := hint { s with ax := setLow s.ax (s.byteAt si) } hah'
        have hnext : (si + 1).toNat + n = si.toNat + (n + 1) := by
          rw [toNat_add_one (by omega)]
          omega
        apply ih (by rw [hax]; exact hah') (hspared.frame.ds.trans hds)
        · omega
        · rw [hnext, hspared.mem _ hkept hout]
          exact hzero
        · rwa [hnext]
        · rw [hnext, hspared.frame.ss, hspared.frame.sp]
          exact hout
        · omega

/-- A zero that ends the text at `str`, which the interrupts spare. -/
structure EndsAt (kept : Set ℕ) (stackLow stackTop : ℕ) (str : Word) (n : ℕ) (mem : Memory) :
    Prop where
  lt : str.toNat + n < 65536
  zero : mem (str.toNat + n) = 0
  kept : str.toNat + n ∈ kept
  out : str.toNat + n < stackLow ∨ stackTop ≤ str.toNat + n

theorem EndsAt.congr {str : Word} {n : ℕ} {mem mem' : Memory}
    (h : EndsAt kept stackLow stackTop str n mem)
    (heq : ∀ a, a < stackLow ∨ stackTop ≤ a → mem' a = mem a) :
    EndsAt kept stackLow stackTop str n mem' :=
  ⟨h.lt, (heq _ h.out).trans h.zero, h.kept, h.out⟩

/-- `print_str` returns when its text ends. -/
theorem printStr_ends (hint : Prints int10 kept stackLow)
    (hs : HasRoom kept stackLow stackTop 16 s) (hds : s.ds = 0) {n fuel : ℕ} {str : Word}
    (hend : EndsAt kept stackLow stackTop str n s.mem) (hfuel : n < fuel) (di : Word) :
    ∃ t, printStr int10 fuel str di s = some t := by
  have hpushed := hs.pusha  str di
  have hend' := hend.congr fun a ha => HasRoom.pushAll_mem (l := [s.ax, s.cx, s.dx, s.bx, s.sp,
    s.ebp.setWidth 16, str, di]) hs ha
  have hpds : (s.pusha str di).ds = 0 := (State.ds_pushAll _).trans hds
  rw [printStr]
  change EndsAt _ _ _ _ _ (s.pusha str di).mem at hend'
  generalize s.pusha str di = p at hpushed hend' hpds
  have htop := hpushed.top
  have hout : str.toNat + n < stackLow ∨ linear p.ss p.sp ≤ str.toNat + n := by
    have hend := hend'.out
    rw [hpushed.ss, linear_zero]
    omega
  obtain ⟨t, hloop⟩ := printLoop_ends hint (s := { p with ax := setHigh p.ax 0x0E, cx := 1 })
    (high_setHigh _ _) hpds hend'.lt hend'.zero hend'.kept hout hfuel
  exact ⟨t.popa, by rw [hloop]; rfl⟩

/-- `print_str` changes nothing but the stack below it. -/
theorem printStr_spared (hint : Prints int10 kept stackLow)
    (hs : HasRoom kept stackLow stackTop 16 s) {fuel : ℕ} {si di : Word}
    (h : printStr int10 fuel si di s = some t) : Restored kept stackLow s t := by
  rw [printStr, Option.bind_eq_bind, Option.bind_eq_some_iff] at h
  obtain ⟨u, hloop, h⟩ := h
  obtain rfl := Option.some.inj h
  suffices h : Spared kept stackLow (s.pusha si di) u from hs.popa h
  generalize s.pusha si di = p at hloop ⊢
  have hstart : Spared kept stackLow p { p with ax := setHigh p.ax 0x0E, cx := 1 } :=
    Spared.registers p _ p.bx _ p.dx
  exact hstart.trans (printLoop_spared hint (high_setHigh _ _) hloop)

/-- The line that is printed changes nothing but the stack below it. -/
theorem logFat_spared (hint : Prints int10 kept stackLow)
    (hs : HasRoom kept stackLow stackTop 34 s) {fuel : ℕ} {si di : Word}
    (h : logFat B int10 fuel si di s = some t) : Restored kept stackLow s t := by
  have hpushed := HasRoom.pusha hs si di
  rw [logFat, Option.bind_eq_bind, Option.bind_eq_some_iff] at h
  obtain ⟨u, hcall, h⟩ := h
  obtain rfl := Option.some.inj h
  obtain ⟨v, hprint, -, rfl⟩ := State.call_cases hcall
  have hspared := (printStr_spared hint (hpushed.push _) hprint).spared
  exact (hs.le (by omega)).popa ((hpushed.le (by omega)).drop hspared)

/-- The line is printed when its text ends. -/
theorem logFat_ends (hint : Prints int10 kept stackLow)
    (hs : HasRoom kept stackLow stackTop 34 s) (hds : s.ds = 0) {n fuel : ℕ}
    (hend : EndsAt kept stackLow stackTop B.load_fat_str n s.mem) (hfuel : n < fuel)
    (si di : Word) : ∃ t, logFat B int10 fuel si di s = some t := by
  have hpushed := HasRoom.pusha hs si di
  have hend' := hend.congr fun a ha => HasRoom.pushAll_mem (l := [s.ax, s.cx, s.dx, s.bx, s.sp,
    s.ebp.setWidth 16, si, di, B.afterPrintStr]) (hs.le (by change 18 ≤ 34; omega)) ha
  have hpds : (s.pusha si di).ds = 0 := (State.ds_pushAll _).trans hds
  rw [logFat]
  change EndsAt _ _ _ _ _ ((s.pusha si di).push B.afterPrintStr).mem at hend'
  generalize s.pusha si di = p at hpushed hend' hpds
  have hcalled := hpushed.push B.afterPrintStr
  obtain ⟨t, hprint⟩ := printStr_ends hint hcalled hpds hend' hfuel di
  have hret := (hpushed.le (by omega)).top_eq (printStr_spared hint hcalled hprint).spared
  exact ⟨t.drop.popa, by rw [State.call_eq_some hprint hret]; rfl⟩

/-! ### The call of `read_disk` -/

/-- What the first stage relies on: the data of the boot sector, apart from each other and below the
FAT, and room for its stack below the boot sector. -/
structure BootSector (L : Labels) (B : FirstLabels) (kept : Set ℕ) (stackLow : ℕ) (mem : Memory) :
    Prop where
  placed : Placed L kept stackLow 0x7C00
  below : ∀ a, L.Const a → a < FAT12_LOCATION.toNat
  BytesPerSector : word mem L.BytesPerSector.toNat = 512
  SectorsPerTrack : word mem L.SectorsPerTrack.toNat = 18
  Head : word mem L.Head.toNat = 2
  apart : L.BOOT_DISK.toNat ∉ ({L.BytesPerSector.toNat, L.BytesPerSector.toNat + 1,
    L.SectorsPerTrack.toNat, L.SectorsPerTrack.toNat + 1, L.Head.toNat, L.Head.toNat + 1} : Set ℕ)
  room : stackLow + 34 ≤ 0x7C00
  text : ∃ n, EndsAt kept stackLow 0x7C00 B.load_fat_str n mem ∧
    B.load_fat_str.toNat + n ≠ L.BOOT_DISK.toNat

/-- The arguments of `read_disk`; the upper half of the count is `ch`. -/
structure FatCall (L : Labels) (kept : Set ℕ) (stackLow : ℕ) (drive ch : Byte) (s : State) :
    Prop where
  ds : s.ds = 0
  es : s.es = 0
  room : HasRoom kept stackLow 0x7C00 34 s
  sp : s.sp = 0x7C00
  holds : L.Holds drive s.mem
  ax : s.ax = 1
  bx : s.bx = FAT12_LOCATION
  cx : s.cx = ch ++ low FAT12_SECTOR_COUNT

/-- The state before `reset_disk`. -/
theorem bootStart_spec (hb : BootSector L B kept stackLow s.mem) :
    let t := bootStart L 0 s
    t.ds = 0 ∧ t.es = 0 ∧ HasRoom kept stackLow 0x7C00 34 t ∧ t.sp = 0x7C00 ∧ t.cx = s.cx ∧
      L.Holds (low s.dx) t.mem ∧
      ∃ n, EndsAt kept stackLow 0x7C00 B.load_fat_str n t.mem := by
  have hmem : (bootStart L 0 s).mem = storeByte s.mem L.BOOT_DISK.toNat (low s.dx) :=
    congrArg (storeByte s.mem · (low s.dx)) (linear_zero _)
  have hapart := hb.apart
  simp only [Set.mem_insert_iff, Set.mem_singleton_iff, not_or] at hapart
  obtain ⟨hb0, hb1, ht0, ht1, hh0, hh1⟩ := hapart
  obtain ⟨n, hend, hne⟩ := hb.text
  have hother : ∀ a, a ≠ L.BOOT_DISK.toNat → (bootStart L 0 s).mem a = s.mem a := fun a ha => by
    rw [hmem, storeByte_of_ne ha]
  refine ⟨rfl, rfl, ⟨rfl, hb.room, le_rfl, hb.placed.stack⟩, rfl, rfl, ⟨?_, ?_, ?_, ?_⟩,
    n, hend.lt, ?_, hend.kept, hend.out⟩
  · rw [word_congr (hother _ (Ne.symm hb0)) (hother _ (Ne.symm hb1))]
    exact hb.BytesPerSector
  · rw [word_congr (hother _ (Ne.symm ht0)) (hother _ (Ne.symm ht1))]
    exact hb.SectorsPerTrack
  · rw [word_congr (hother _ (Ne.symm hh0)) (hother _ (Ne.symm hh1))]
    exact hb.Head
  · rw [hmem, storeByte_self]
  · rw [hother _ hne]
    exact hend.zero

/-- The call of `reset_disk` clears AX. -/
theorem call_resetDisk_spec (hint : Resets int13 kept stackLow)
    (hs : HasRoom kept stackLow stackTop 2 s) (ret : Word) :
    ∃ t, s.call ret (fun s => some (resetDisk int13 s)) = some t ∧
      Spared kept stackLow s t ∧ t.ax = 0 ∧ t.cx = s.cx := by
  have hreset := hint { s.push ret with ax := 0 } rfl
  have hspared : Spared kept stackLow (s.push ret) (resetDisk int13 (s.push ret)) :=
    (Spared.registers _ _ (s.push ret).bx (s.push ret).cx (s.push ret).dx).trans hreset.spared
  refine ⟨_, State.call_eq_some rfl (hs.top_eq hspared), hs.drop hspared, ?_, hreset.cx⟩
  have hzero : setHigh (0 : Word) 0 = 0 := by decide
  exact hreset.ax.trans hzero

/-- The arguments, from a state that has come through `reset_disk` and the line that is printed. -/
theorem fatArguments_spec (hb : BootSector L B kept stackLow s.mem) {u : State}
    (hspared : Spared kept stackLow (bootStart L 0 s) u) (hax : u.ax = 0) (hcx : u.cx = s.cx) :
    FatCall L kept stackLow (low s.dx) (high s.cx) (fatArguments u) := by
  obtain ⟨hds, -, hroom, hsp, -, hholds, -⟩ := bootStart_spec hb
  have hmem : ∀ a, L.Const a → u.mem a = (bootStart L 0 s).mem a := fun a ha => by
    have hconst := hb.placed.const a ha
    refine hspared.mem a hconst.1 ?_
    rw [hroom.ss, linear_zero, hsp]
    exact hconst.2
  have huroom := hroom.of_spared hspared
  refine ⟨hspared.frame.ds.trans hds, rfl, ⟨huroom.ss, huroom.room, huroom.top, huroom.kept⟩,
    hspared.frame.sp.trans hsp, hholds.congr hmem, ?_, rfl, ?_⟩
  · change setLow u.ax 1 = 1
    rw [hax]
    decide
  · change setLow u.cx (low FAT12_SECTOR_COUNT) = _
    rw [hcx, setLow]

section Before

variable (hb : BootSector L B kept stackLow s.mem) (hprints : Prints int10 kept stackLow)
  (hresets : Resets int13 kept stackLow)
include hb hprints hresets

/-- Whatever the BIOS left in the registers, it has no effect but the upper half of the count. -/
theorem beforeRead_spec {fuel : ℕ} {si di : Word}
    (h : beforeRead L B int10 int13 fuel 0 si di s = some t) :
    FatCall L kept stackLow (low s.dx) (high s.cx) t := by
  obtain ⟨-, -, hroom, -, hcx, -, -⟩ := bootStart_spec hb
  obtain ⟨u, hcall, hspared, hax, hucx⟩ :=
    call_resetDisk_spec hresets (hroom.le (by omega)) B.afterResetDisk
  simp only [beforeRead, hcall, Option.bind_eq_bind, Option.bind_some] at h
  rw [Option.bind_eq_some_iff] at h
  obtain ⟨v, hlog, h⟩ := h
  obtain rfl := Option.some.inj h
  have hrestored := logFat_spared hprints (hroom.of_spared hspared) hlog
  exact fatArguments_spec hb (hspared.trans hrestored.spared) (hrestored.ax.trans hax)
    (hrestored.cx.trans (hucx.trans hcx))

/-- The stage comes to its call of `read_disk`. -/
theorem beforeRead_ends (si di : Word) :
    ∃ n, ∀ fuel > n, ∃ t, beforeRead L B int10 int13 fuel 0 si di s = some t := by
  obtain ⟨hds, -, hroom, hsp, -, -, n, hend⟩ := bootStart_spec hb
  obtain ⟨u, hcall, hspared, -, -⟩ :=
    call_resetDisk_spec hresets (hroom.le (by omega)) B.afterResetDisk
  have hend' : EndsAt kept stackLow 0x7C00 B.load_fat_str n u.mem := by
    refine ⟨hend.lt, ?_, hend.kept, hend.out⟩
    rw [hspared.mem _ hend.kept (by rw [hroom.ss, linear_zero, hsp]; exact hend.out)]
    exact hend.zero
  refine ⟨n, fun fuel hfuel => ?_⟩
  obtain ⟨v, hlog⟩ := logFat_ends hprints (hroom.of_spared hspared)
    (hspared.frame.ds.trans hds) hend' hfuel si di
  exact ⟨fatArguments v, by rw [beforeRead, hcall, Option.bind_eq_bind, Option.bind_some, hlog]; rfl⟩

end Before

/-! ### The loop -/

/-- The state of the `k`-th call of INT 13h: it asks for block `1 + k`, behind those before. -/
structure FatRequest (drive : Byte) (k : ℕ) (v : State) : Prop where
  ax : v.ax = 0x0201
  drive : low v.dx = drive
  addresses : Addresses v (1 + k)
  buffer : linear v.es v.bx = FAT12_LOCATION.toNat + 512 * k

/-- After `k` turns of `read_disk` that started in `s`: the blocks lie behind each other, and the
memory below them is as it was. -/
structure FatRead (L : Labels) (kept : Set ℕ) (stackLow : ℕ) (drive : Byte) (s : State) (k : ℕ)
    (p : State × List State) : Prop where
  frame : s.SameFrame p.1
  ax : p.1.ax.toNat = 1 + k
  bx : p.1.bx.toNat = FAT12_LOCATION.toNat + 512 * k
  cx : p.1.cx.toNat + k = s.cx.toNat
  mem : ∀ a ∈ kept, ¬ L.Var a → a < FAT12_LOCATION.toNat → a < stackLow ∨ s.sp.toNat ≤ a →
    p.1.mem a = s.mem a
  length : p.2.length = k
  log : ∀ i (hi : i < p.2.length), FatRequest drive i (p.2.get ⟨i, hi⟩)

/-- Where `read_disk` starts. -/
structure FatStart (L : Labels) (kept : Set ℕ) (stackLow : ℕ) (drive : Byte) (s : State) :
    Prop where
  placed : Placed L kept stackLow 0x7C00
  below : ∀ a, L.Const a → a < FAT12_LOCATION.toNat
  ds : s.ds = 0
  es : s.es = 0
  room : HasRoom kept stackLow 0x7C00 8 s
  holds : L.Holds drive s.mem

section Loop

variable {drive : Byte} {k : ℕ} {p : State × List State} {disk : ℕ → ℕ → Byte}

theorem FatRead.canRead (hs : FatStart L kept stackLow drive s)
    (hp : FatRead L kept stackLow drive s k p) (hk : k < 32) :
    CanRead L drive stackLow 0x7C00 8 p.1 := by
  have hroom := hs.room.room
  have htop := hs.room.top
  have hbx := hp.bx
  have hlocation : FAT12_LOCATION.toNat = 0x7E00 := rfl
  have hes : p.1.es = 0 := hp.frame.es.trans hs.es
  refine ⟨hp.frame.ds.trans hs.ds, hp.frame.ss.trans hs.room.ss, ?_, ?_, ?_, by omega, ?_⟩
  · refine hs.holds.congr fun a ha => ?_
    have hconst := hs.placed.const a ha
    exact hp.mem a hconst.1 (hs.placed.const_not_var ha) (hs.below a ha) (by omega)
  · rwa [hp.frame.sp]
  · rwa [hp.frame.sp]
  · intro a hlo _
    rw [hes, linear_zero, hbx] at hlo
    refine ⟨fun ha => ?_, by omega⟩
    have hbelow := hs.below a ha
    omega

/-- One turn of `read_disk` asks for the next block, and puts it behind those before. -/
theorem bootFirst_reads (hs : FatStart L kept stackLow drive s)
    (hp : FatRead L kept stackLow drive s k p) (hk : k < 32) (hcount : k < s.cx.toNat)
    (hint : Delivers int13 disk drive kept stackLow (1 + k)) :
    ∃ q, readSectorLogged L int13 p = some q ∧ FatRead L kept stackLow drive s (k + 1) q := by
  obtain ⟨t, log⟩ := p
  have hcan := hp.canRead hs hk
  have hlba : t.ax.toNat / 36 < 256 := by
    have hax := hp.ax
    dsimp only at hax
    omega
  have hes : t.es = 0 := hp.frame.es.trans hs.es
  obtain ⟨v, hrequest, hv⟩ := readRequest_spec hs.placed hcan hlba
  obtain ⟨u, hread, hframe, hax, hbx, hcx, -, hmem⟩ :=
    readSector_spec hs.placed hcan hlba (by rw [hp.ax]; exact hint)
  rw [readSector_eq, hrequest, Option.bind_some] at hread
  split_ifs at hread with hcarry
  obtain rfl := Option.some.inj hread
  have hlocation : FAT12_LOCATION.toNat = 0x7E00 := rfl
  have haxNat : t.ax.toNat = 1 + k := hp.ax
  have hbxNat : t.bx.toNat = FAT12_LOCATION.toNat + 512 * k := hp.bx
  have hcxNat : t.cx.toNat + k = s.cx.toNat := hp.cx
  have hlength : log.length = k := hp.length
  have hbuffer : linear t.es t.bx = FAT12_LOCATION.toNat + 512 * k := by
    rw [hes, linear_zero, hbxNat]
  have hone : (1 : Word).toNat = 1 := rfl
  have hsector : (512 : Word).toNat = 512 := rfl
  refine ⟨(readOk L (int13 v), log ++ [v]), ?_, hp.frame.trans hframe, ?_, ?_, ?_, ?_, ?_, ?_⟩
  · rw [readSectorLogged, hrequest]
    exact if_neg hcarry
  · dsimp only
    rw [hax, BitVec.toNat_add, haxNat, hone]
    omega
  · dsimp only
    rw [hbx, BitVec.toNat_add, hbxNat, hsector]
    omega
  · dsimp only at hcx ⊢
    rw [hcx, BitVec.toNat_sub, hone]
    omega
  · intro a ha hvar hbelow hout
    refine (hmem a ha hvar (Or.inl ?_) ?_).trans (hp.mem a ha hvar hbelow hout)
    · rw [hbuffer]
      omega
    · rwa [hp.frame.sp]
  · rw [List.length_append, List.length_singleton, hlength]
  · intro i hi
    dsimp only at hi ⊢
    have hi' : i < k + 1 := by
      rwa [List.length_append, List.length_singleton, hlength] at hi
    rcases Nat.lt_succ_iff_lt_or_eq.mp hi' with hlt | rfl
    · have hin : i < log.length := by omega
      rw [List.get_eq_getElem, List.getElem_append_left hin]
      exact hp.log i hin
    · rw [List.get_eq_getElem, List.getElem_append_right hlength.le]
      simp only [hlength, Nat.sub_self, List.getElem_cons_zero]
      refine ⟨hv.ax, hv.drive, ?_, ?_⟩
      · rw [← haxNat]
        exact hv.addresses
      · rw [hv.frame.es, hv.bx]
        exact hbuffer

/-- The registers at the call are those of the loop's start. -/
theorem FatCall.start {ch : Byte} (hb : Placed L kept stackLow 0x7C00)
    (hbelow : ∀ a, L.Const a → a < FAT12_LOCATION.toNat)
    (hs : FatCall L kept stackLow drive ch s) (ret : Word) :
    FatStart L kept stackLow drive (s.push ret) ∧
      FatRead L kept stackLow drive (s.push ret) 0 (s.push ret, []) := by
  have hmem : ∀ a, L.Const a → (s.push ret).mem a = s.mem a := fun a ha =>
    HasRoom.pushAll_mem (l := [ret]) (hs.room.le (by change 2 ≤ 34; omega)) (hb.const a ha).2
  refine ⟨⟨hb, hbelow, hs.ds, hs.es, (hs.room.le (by omega)).push ret, hs.holds.congr hmem⟩,
    ⟨rfl, rfl, rfl, rfl, rfl, rfl⟩, ?_, ?_, rfl, fun _ _ _ _ _ => rfl, rfl,
    fun i hi => absurd hi (Nat.not_lt_zero i)⟩
  · exact congrArg BitVec.toNat hs.ax
  · exact congrArg BitVec.toNat hs.bx

/-- A turn asks INT 13h once. -/
theorem length_readSectorLogged {p q : State × List State}
    (h : readSectorLogged L int13 p = some q) : p.2.length < q.2.length := by
  obtain ⟨s, log⟩ := p
  rw [readSectorLogged, Option.bind_eq_bind, Option.bind_eq_some_iff] at h
  obtain ⟨v, -, h⟩ := h
  dsimp only at h
  split_ifs at h
  obtain rfl := Option.some.inj h
  simp

/-- Loaded with a count of 32, `read_disk` returns after the 32 blocks. -/
theorem readDiskLogged_ends (hs : FatStart L kept stackLow drive s)
    (hp : FatRead L kept stackLow drive s 0 (s, [])) (hcx : s.cx.toNat = 32)
    (hint : ∀ k < 32, Delivers int13 disk drive kept stackLow (1 + k)) {fuel : ℕ}
    (hfuel : 32 ≤ fuel) :
    ∃ q, readDiskLogged L int13 fuel s = some q ∧ q.2.length = 32 ∧
      (∀ i (hi : i < q.2.length), FatRequest drive i (q.2.get ⟨i, hi⟩)) ∧
      Spared (Set.Ico stackLow 0x7C00) stackLow s q.1 := by
  have hrun : ∃ p, doWhile (readSectorLogged L int13) (fun p => p.1.cx != 0) fuel (s, []) = some p ∧
      FatRead L kept stackLow drive s 32 p := by
    refine doWhile_inv (fun k p => FatRead L kept stackLow drive s k p) (fun k hk p hp => ?_)
      (by omega) hfuel hp
    obtain ⟨q, hread, hq⟩ := bootFirst_reads hs hp hk (by omega) (hint k hk)
    refine ⟨q, hread, hq, ?_⟩
    have hcxq := hq.cx
    rw [bne_iff_ne, ne_eq, ← BitVec.toNat_inj]
    change q.1.cx.toNat ≠ 0 ↔ _
    omega
  obtain ⟨⟨t, log⟩, hloop, ht⟩ := hrun
  refine ⟨({ t with carry := false }, log), ?_, ht.length, ht.log, ?_, ?_⟩
  · rw [readDiskLogged, hloop]
    rfl
  · exact ⟨ht.frame.ds, ht.frame.es, ht.frame.ss, ht.frame.sp, ht.frame.espHigh, ht.frame.ebp⟩
  · rintro a ⟨hlo, hhi⟩ hout
    have hlocation : FAT12_LOCATION.toNat = 0x7E00 := rfl
    rw [hs.room.ss, linear_zero] at hout
    exact ht.mem a (hs.placed.stack a hlo hhi) (hs.placed.stack_not_var hlo hhi) (by omega) hout

/-- With a larger count it does not return without asking for more blocks. -/
theorem readDiskLogged_length (hs : FatStart L kept stackLow drive s)
    (hp : FatRead L kept stackLow drive s 0 (s, [])) (hcx : 32 < s.cx.toNat)
    (hint : ∀ k < 32, Delivers int13 disk drive kept stackLow (1 + k)) {fuel : ℕ}
    {q : State × List State} (h : readDiskLogged L int13 fuel s = some q) :
    32 < q.2.length := by
  rw [readDiskLogged, Option.bind_eq_bind, Option.bind_eq_some_iff] at h
  obtain ⟨r, hloop, h⟩ := h
  obtain rfl := Option.some.inj h
  obtain ⟨rest, p, hlast, hrest⟩ := doWhile_through
    (fun k p => FatRead L kept stackLow drive s k p)
    (fun k hk p hp => by
      obtain ⟨q, hread, hq⟩ := bootFirst_reads hs hp hk (by omega) (hint k hk)
      refine ⟨q, hread, hq, ?_⟩
      have hcxq := hq.cx
      rw [bne_iff_ne, ne_eq, ← BitVec.toNat_inj]
      change q.1.cx.toNat ≠ 0
      omega)
    hp hloop
  have hmore := doWhile_lt (fun p : State × List State => p.2.length) length_readSectorLogged hrest
  rwa [hlast.length] at hmore

end Loop

/-! ### The stage -/

/-- The BIOS has jumped to `0000:7C00`: the stage asks INT 13h for 32 blocks, the `k`-th of them the
block `1 + k` to the address `0x7E00 + 512 * k`, and comes to its call of `search_file`. -/
def LoadsFat (L : Labels) (B : FirstLabels) (int10 int13 : State → State) (si di : Word)
    (s : State) : Prop :=
  ∃ fuel t log, bootFirst L B int10 int13 fuel 0 si di s = some (t, log) ∧ log.length = 32 ∧
    ∀ k (hk : k < log.length), FatRequest (low s.dx) k (log.get ⟨k, hk⟩)

theorem toNat_fatCount (ch : Byte) : (ch ++ low FAT12_SECTOR_COUNT).toNat = 256 * ch.toNat + 32 :=
  toNat_append _ _

section Stage

variable {disk : ℕ → ℕ → Byte} (hb : BootSector L B kept stackLow s.mem)
  (hprints : Prints int10 kept stackLow) (hresets : Resets int13 kept stackLow)
  (hdelivers : ∀ k < 32, Delivers int13 disk (low s.dx) kept stackLow (1 + k))
include hb hprints hresets hdelivers

/-- With anything in CH the stage asks for more blocks, or does not go on. -/
theorem high_eq_zero_of_loadsFat {si di : Word} (h : LoadsFat L B int10 int13 si di s) :
    high s.cx = 0 := by
  obtain ⟨fuel, t, log, hrun, hlength, -⟩ := h
  by_contra hch
  have hpos : 0 < (high s.cx).toNat := by
    rw [Nat.pos_iff_ne_zero]
    exact fun h => hch (BitVec.eq_of_toNat_eq h)
  rw [bootFirst, Option.bind_eq_bind, Option.bind_eq_some_iff] at hrun
  obtain ⟨u, hbefore, hrun⟩ := hrun
  have hcall := beforeRead_spec hb hprints hresets hbefore
  obtain ⟨hstart, hread⟩ := hcall.start hb.placed hb.below B.afterReadFat
  have hcx : 32 < (u.push B.afterReadFat).cx.toNat := by
    change 32 < u.cx.toNat
    rw [hcall.cx, toNat_fatCount]
    omega
  rw [Option.bind_eq_bind, Option.bind_eq_some_iff] at hrun
  obtain ⟨⟨v, log'⟩, hdisk, hrun⟩ := hrun
  have hmore := readDiskLogged_length hstart hread hcx hdelivers hdisk
  dsimp only at hrun hmore
  split_ifs at hrun
  obtain ⟨-, rfl⟩ := Prod.mk.inj (Option.some.inj hrun)
  omega

/-- With CH zero the count is the 32 that was loaded. -/
theorem loadsFat_of_high_eq_zero (hch : high s.cx = 0) (si di : Word) :
    LoadsFat L B int10 int13 si di s := by
  obtain ⟨n, hends⟩ := beforeRead_ends hb hprints hresets si di
  obtain ⟨u, hbefore⟩ := hends (n + 32) (by omega)
  have hcall := beforeRead_spec hb hprints hresets hbefore
  obtain ⟨hstart, hread⟩ := hcall.start hb.placed hb.below B.afterReadFat
  have hcx : (u.push B.afterReadFat).cx.toNat = 32 := by
    change u.cx.toNat = 32
    rw [hcall.cx, toNat_fatCount, hch]
    rfl
  obtain ⟨⟨v, log⟩, hdisk, hlength, hlog, hspared⟩ :=
    readDiskLogged_ends hstart hread hcx hdelivers (Nat.le_add_left 32 n)
  have hroom : HasRoom (Set.Ico stackLow 0x7C00) stackLow 0x7C00 2 u :=
    ⟨hcall.room.ss, (hcall.room.le (by omega)).room, hcall.room.top, fun _ hlo hhi => ⟨hlo, hhi⟩⟩
  refine ⟨n + 32, v.drop, log, ?_, hlength, hlog⟩
  rw [bootFirst, hbefore, Option.bind_eq_bind, Option.bind_some, hdisk]
  exact if_pos (hroom.top_eq hspared)

/-- **The count has an upper half**: whatever the BIOS left in the registers, the first stage reads
the 32 blocks and goes on, exactly when CH was zero. -/
theorem loadsFat_iff (si di : Word) :
    LoadsFat L B int10 int13 si di s ↔ high s.cx = 0 :=
  ⟨high_eq_zero_of_loadsFat hb hprints hresets hdelivers,
    fun hch => loadsFat_of_high_eq_zero hb hprints hresets hdelivers hch si di⟩

end Stage

/-! ### A disk that is read -/

/-- INT 13h of a BIOS whose disk is ready. -/
def biosInt13 (disk : ℕ → ℕ → Byte) (s : State) : State :=
  if s.ax = 0 then { s with carry := false } else readyInt13 disk s

theorem biosInt13_resets (disk : ℕ → ℕ → Byte) (kept : Set ℕ) (stackLow : ℕ) :
    Resets (biosInt13 disk) kept stackLow := by
  intro s hax
  have hzero : setHigh s.ax 0 = s.ax := by
    rw [hax]
    decide
  rw [biosInt13, if_pos hax, hzero]
  exact ⟨⟨⟨rfl, rfl, rfl, rfl, rfl, rfl⟩, fun _ _ _ => rfl⟩, rfl, rfl, rfl, rfl⟩

theorem biosInt13_delivers (disk : ℕ → ℕ → Byte) (drive : Byte) (kept : Set ℕ)
    (stackLow lba : ℕ) : Delivers (biosInt13 disk) disk drive kept stackLow lba := by
  intro s hax hdrive haddr hoffset
  have hread : s.ax ≠ 0 := by
    rw [hax]
    decide
  rw [biosInt13, if_neg hread]
  exact readyInt13_delivers disk drive kept stackLow lba s hax hdrive haddr hoffset

def firstLabels : FirstLabels where
  load_fat_str := 0x7D80
  afterResetDisk := 0x7C60
  afterPrintStr := 0x7C68
  afterReadFat := 0x7C75

/-- The text `LOAD FAT`, with the end of the line. -/
def load_fat_str : List Byte := [0x4C, 0x4F, 0x41, 0x44, 0x20, 0x46, 0x41, 0x54, 0x0A, 0x0D, 0]

/-- What the BIOS hands over, with its count in CX; the boot sector is in the memory. -/
def handover (cx : Word) : State where
  ax := 0xAA55
  bx := 0
  cx := cx
  dx := 0
  sp := 0x0400
  espHigh := 0
  ebp := 0
  ds := 0x0040
  es := 0
  ss := 0x0030
  carry := false
  mem := fun a =>
    if a = 0x7C0C ∨ a = 0x7C1A then 2
    else if a = 0x7C18 then 18
    else if 0x7D80 ≤ a then load_fat_str.getD (a - 0x7D80) 0
    else 0

theorem handover_bootSector (cx : Word) :
    BootSector bootLabels firstLabels (Set.Ico 0x7000 0x7E00) 0x7000 (handover cx).mem := by
  have hsector : (2 : Byte) ++ (0 : Byte) = (512 : Word) := by decide
  have htrack : (0 : Byte) ++ (18 : Byte) = (18 : Word) := by decide
  have hhead : (0 : Byte) ++ (2 : Byte) = (2 : Word) := by decide
  have hplaced : Placed bootLabels (Set.Ico 0x7000 0x7E00) 0x7000 0x7C00 := by
    refine ⟨⟨by decide, by decide, by decide, ?_⟩, fun a hlo hhi => ⟨hlo, by omega⟩, ?_, ?_⟩
    · simp only [Labels.Const, Labels.Var, bootLabels, BitVec.reduceToNat]
      omega
    · simp only [Labels.Const, bootLabels, BitVec.reduceToNat, Set.mem_Ico]
      omega
    · simp only [Labels.Var, bootLabels, BitVec.reduceToNat]
      omega
  refine ⟨hplaced, ?_, hsector, htrack, hhead, ?_, by decide, 10, ⟨by decide, ?_, ?_, ?_⟩,
    by decide⟩
  · simp only [Labels.Const, bootLabels, FAT12_LOCATION, BitVec.reduceToNat]
    omega
  · simp [bootLabels]
  · simp [handover, firstLabels, load_fat_str]
  · exact ⟨by decide, by decide⟩
  · exact Or.inr (by decide)

/-- A BIOS that leaves zero in CH. -/
theorem loadsFat_ready : LoadsFat bootLabels firstLabels id (biosInt13 fragmentedDisk) 0 0
    (handover 0x0001) :=
  (loadsFat_iff (handover_bootSector _)
    (fun _ _ => ⟨⟨⟨rfl, rfl, rfl, rfl, rfl, rfl⟩, fun _ _ _ => rfl⟩, rfl⟩)
    (biosInt13_resets _ _ _) (fun _ _ => biosInt13_delivers _ _ _ _ _) 0 0).mpr (by decide)

/-- A BIOS that leaves one in CH: the count is 288. -/
theorem not_loadsFat_cylinder : ¬ LoadsFat bootLabels firstLabels id (biosInt13 fragmentedDisk) 0 0
    (handover 0x0101) := by
  intro h
  have hch := high_eq_zero_of_loadsFat (handover_bootSector _)
    (fun _ _ => ⟨⟨⟨rfl, rfl, rfl, rfl, rfl, rfl⟩, fun _ _ _ => rfl⟩, rfl⟩)
    (biosInt13_resets _ _ _) (fun _ _ => biosInt13_delivers fragmentedDisk _ _ _ _) h
  exact absurd hch (by decide)

end B2OS.Boot
