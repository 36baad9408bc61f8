import B2OS.Boot.DiskRead

/-!
# Reading a Sector

What the loader relies on when it reads a sector with INT 13h, and what `read_disk` makes of
it: the block in AX lies at ES:BX, and the stack above the call and the constants of the stage
are what they were.

## Main results

* `readRequest_spec`: what a turn of `read_disk` asks INT 13h for.
* `readSector_spec`: one turn of `read_disk`.
* `call_readDisk_spec`: a call of `read_disk` for one sector.
-/

namespace B2OS.Boot

open RealMode

/-! ### INT 13h -/

/-- The cylinder, head and sector in the registers are those of a block. -/
structure Addresses (s : State) (lba : ℕ) : Prop where
  sector_pos : 1 ≤ (low s.cx).toNat % 64
  sector_le : (low s.cx).toNat % 64 ≤ 18
  head_lt : (high s.dx).toNat < 2
  eq : lba = (((high s.cx).toNat + 256 * ((low s.cx).toNat / 64)) * 2 + (high s.dx).toNat) * 18 +
    ((low s.cx).toNat % 64 - 1)

/-- A sector is delivered: the interrupt reports success, the sector lies at ES:BX, and the
bytes of `kept` are the same, but for the buffer and for the stack from `stackLow` to its
top. -/
structure Delivered (sector : ℕ → Byte) (kept : Set ℕ) (stackLow : ℕ) (s t : State) :
    Prop where
  carry : t.carry = false
  frame : s.SameFrame t
  sector : ∀ j < 512, t.mem (linear s.es s.bx + j) = sector j
  kept : ∀ a ∈ kept, a < linear s.es s.bx ∨ linear s.es s.bx + 512 ≤ a →
    a < stackLow ∨ linear s.ss s.sp ≤ a → t.mem a = s.mem a

/-- INT 13h succeeds and delivers a block of the disk, when it is asked for one sector at the
cylinder, head and sector of this block, with a buffer inside its segment. -/
def Delivers (int13 : State → State) (disk : ℕ → ℕ → Byte) (drive : Byte) (kept : Set ℕ)
    (stackLow lba : ℕ) : Prop :=
  ∀ s : State, s.ax = 0x0201 → low s.dx = drive → Addresses s lba →
    s.bx.toNat + 512 ≤ 65536 → Delivered (disk lba) kept stackLow s (int13 s)

/-! ### The states in which a sector is read -/

/-- The stack is part of the kept memory, and the data of the stage lies outside of it. -/
structure Placed (L : Labels) (kept : Set ℕ) (stackLow stackTop : ℕ) : Prop where
  apart : L.Apart
  stack : ∀ a, stackLow ≤ a → a < stackTop → a ∈ kept
  const : ∀ a, L.Const a → a ∈ kept ∧ (a < stackLow ∨ stackTop ≤ a)
  var : ∀ a, L.Var a → a < stackLow ∨ stackTop ≤ a

/-- The stack has room for `room` bytes more, and the buffer at ES:BX is apart from it and from
the constants. -/
structure CanRead (L : Labels) (drive : Byte) (stackLow stackTop room : ℕ) (s : State) :
    Prop where
  ds : s.ds = 0
  ss : s.ss = 0
  holds : L.Holds drive s.mem
  room : stackLow + room ≤ s.sp.toNat
  top : s.sp.toNat ≤ stackTop
  offset : s.bx.toNat + 512 ≤ 65536
  buffer : ∀ a, linear s.es s.bx ≤ a → a < linear s.es s.bx + 512 →
    ¬ L.Const a ∧ (a < stackLow ∨ stackTop ≤ a)

variable {L : Labels} {int13 : State → State} {disk : ℕ → ℕ → Byte} {drive : Byte}
  {kept : Set ℕ} {stackLow stackTop room : ℕ} {s : State}

theorem Placed.const_not_var (hL : Placed L kept stackLow stackTop) {a : ℕ} (ha : L.Const a) :
    ¬ L.Var a := hL.apart.const a ha

theorem Placed.stack_not_var (hL : Placed L kept stackLow stackTop) {a : ℕ}
    (hlo : stackLow ≤ a) (hhi : a < stackTop) : ¬ L.Var a := fun ha => by
  have hvar := hL.var a ha
  omega

theorem CanRead.push (hL : Placed L kept stackLow stackTop)
    (h : CanRead L drive stackLow stackTop (room + 2) s) (v : Word) :
    CanRead L drive stackLow stackTop room (s.push v) := by
  have hroom := h.room
  have htop := h.top
  have hsp := State.toNat_sp_push v (s := s) (by omega)
  refine ⟨h.ds, h.ss, ?_, by omega, by omega, h.offset, h.buffer⟩
  refine h.holds.congr fun a ha => State.push_mem_of_apart v h.ss (by omega) ?_
  have hconst := (hL.const a ha).2
  omega

theorem CanRead.pushAll (hL : Placed L kept stackLow stackTop) {l : List Word}
    (h : CanRead L drive stackLow stackTop (room + 2 * l.length) s) :
    CanRead L drive stackLow stackTop room (s.pushAll l) := by
  induction l generalizing s with
  | nil => exact h
  | cons v l ih => exact ih (h.push hL v)

/-- The stack is apart from the buffer. -/
theorem CanRead.stack_not_buffer (h : CanRead L drive stackLow stackTop room s) {a : ℕ}
    (hlo : stackLow ≤ a) (hhi : a < stackTop) :
    a < linear s.es s.bx ∨ linear s.es s.bx + 512 ≤ a := by
  by_contra hin
  have hout := (h.buffer a (by omega) (by omega)).2
  omega

/-- The constants are apart from the buffer. -/
theorem CanRead.const_not_buffer (h : CanRead L drive stackLow stackTop room s) {a : ℕ}
    (ha : L.Const a) : a < linear s.es s.bx ∨ linear s.es s.bx + 512 ≤ a := by
  by_contra hin
  exact (h.buffer a (by omega) (by omega)).1 ha

/-- `lbatochs` changes its variables only. -/
theorem chsStored_of_not_var {a : ℕ} (h : ¬ L.Var a) (lba : ℕ) (mem : Memory) :
    chsStored L lba mem a = mem a := by
  obtain ⟨hcylinder, hhead, hsector⟩ : a ≠ L._cylinder.toNat ∧ a ≠ L._head.toNat ∧
      a ≠ L._sector.toNat := by
    simpa only [Labels.Var, not_or] using h
  rw [chsStored, storeByte_of_ne hcylinder, storeByte_of_ne hhead, storeByte_of_ne hsector]

/-- After the three bytes of `lbatochs` the registers address the block. -/
theorem addresses_chsStored (hL : L.Apart) {lba : ℕ} (hlba : lba / 36 < 256) {mem : Memory}
    {cx dx : Word} {b : Byte}
    (hcx : s.cx = setLow (setHigh cx (chsStored L lba mem L._cylinder.toNat))
      (chsStored L lba mem L._sector.toNat))
    (hdx : s.dx = setLow (setHigh dx (chsStored L lba mem L._head.toNat)) b) :
    Addresses s lba := by
  have hne : ∀ {a b : Word}, a ≠ b → a.toNat ≠ b.toNat := fun h heq => h (BitVec.eq_of_toNat_eq heq)
  have hcylinder : chsStored L lba mem L._cylinder.toNat = BitVec.ofNat 8 (lba / 36) :=
    storeByte_self ..
  have hhead : chsStored L lba mem L._head.toNat = BitVec.ofNat 8 (lba / 18 % 2) := by
    rw [chsStored, storeByte_of_ne (hne hL.cylinder_head.symm), storeByte_self]
  have hsector : chsStored L lba mem L._sector.toNat = BitVec.ofNat 8 (lba % 18 + 1) := by
    rw [chsStored, storeByte_of_ne (hne hL.cylinder_sector.symm),
      storeByte_of_ne (hne hL.head_sector.symm), storeByte_self]
  rw [hcylinder, hsector] at hcx
  rw [hhead] at hdx
  have hlow : (low s.cx).toNat = lba % 18 + 1 := by
    rw [hcx, low_setLow, BitVec.toNat_ofNat]
    omega
  have hhigh : (high s.cx).toNat = lba / 36 := by
    rw [hcx, high_setLow, high_setHigh, BitVec.toNat_ofNat]
    omega
  have hheadNat : (high s.dx).toNat = lba / 18 % 2 := by
    rw [hdx, high_setLow, high_setHigh, BitVec.toNat_ofNat]
    omega
  refine ⟨?_, ?_, ?_, ?_⟩ <;> omega

/-- A call of `lbatochs` with room for the return address. -/
theorem call_lbatochs_eq (hL : Placed L kept stackLow stackTop)
    (hs : CanRead L drive stackLow stackTop 2 s) (ret : Word) :
    s.call ret (lbatochs L) = some { s with
      ax := BitVec.ofNat 16 (s.ax.toNat / 36)
      dx := BitVec.ofNat 16 (s.ax.toNat / 18 % 2)
      mem := chsStored L s.ax.toNat (s.push ret).mem } := by
  have hroom := hs.room
  have hpush := hs.push hL ret
  have htopLe := hs.top
  have hnot : ∀ a, s.sp.toNat - 2 ≤ a → a < s.sp.toNat → ¬ L.Var a := fun a hlo hhi =>
    hL.stack_not_var (by omega) (by omega)
  have htop : word (chsStored L s.ax.toNat (s.push ret).mem) (s.sp.toNat - 2) = ret := by
    rw [word_congr (chsStored_of_not_var (hnot _ (by omega) (by omega)) _ _)
      (chsStored_of_not_var (hnot _ (by omega) (by omega)) _ _)]
    exact State.word_push_self ret hs.ss (by omega)
  have hsp : (s.push ret).sp.toNat = s.sp.toNat - 2 := State.toNat_sp_push ret (by omega)
  rw [State.call_eq_some (lbatochs_eq hL.apart hpush.ds hpush.holds)]
  · rw [State.drop]
    dsimp only [State.push]
    rw [BitVec.sub_add_cancel]
  · rw [State.top]
    dsimp only
    rw [hpush.ss, linear_zero, hsp]
    exact htop

/-- The registers that were pushed come back, and the next sector goes behind this one. -/
theorem readOk_eq (hds : s.ds = 0) (hss : s.ss = 0) (hsp : s.sp.toNat + 6 ≤ 65536)
    (hsize : word s.mem L.BytesPerSector.toNat = 512) :
    readOk L s = { s with
      ax := word s.mem (s.sp.toNat + 4) + 1
      bx := word s.mem (s.sp.toNat + 2) + 512
      cx := word s.mem s.sp.toNat - 1
      sp := s.sp + 2 + 2 + 2 } := by
  have hsp2 : (s.sp + 2).toNat = s.sp.toNat + 2 := by
    rw [BitVec.toNat_add]
    exact Nat.mod_eq_of_lt (by simp only [BitVec.reduceToNat]; omega)
  have hsp4 : (s.sp + 2 + 2).toNat = s.sp.toNat + 4 := by
    rw [BitVec.toNat_add, hsp2]
    exact Nat.mod_eq_of_lt (by simp only [BitVec.reduceToNat]; omega)
  simp only [readOk, State.drop, State.top, State.wordAt, hds, hss, linear_zero, hsp2, hsp4,
    hsize]

/-- The registers that a turn of `read_disk` saves. -/
def saved (s : State) : State := s.pushAll [s.ax, s.bx, s.cx]

/-- The state in which a turn of `read_disk` comes to INT 13h. -/
def readRequest (L : Labels) (s : State) : Option State := do
  let s := saved s
  let s ← s.call L.afterLbatochs (lbatochs L)
  some (sectorRequest L s)

/-- `v` asks for the block in the AX of `s`, with the registers of `s` saved. -/
structure Requests (L : Labels) (drive : Byte) (stackLow : ℕ) (s v : State) : Prop where
  frame : (saved s).SameFrame v
  ax : v.ax = 0x0201
  bx : v.bx = s.bx
  drive : low v.dx = drive
  addresses : Addresses v s.ax.toNat
  mem : ∀ a, ¬ L.Var a → a < stackLow ∨ (saved s).sp.toNat ≤ a → v.mem a = (saved s).mem a

theorem readRequest_spec (hL : Placed L kept stackLow stackTop)
    (hs : CanRead L drive stackLow stackTop 8 s) (hlba : s.ax.toNat / 36 < 256) :
    ∃ v, readRequest L s = some v ∧ Requests L drive stackLow s v := by
  have hp : CanRead L drive stackLow stackTop 2 (saved s) := CanRead.pushAll hL hs
  have hroom := hp.room
  let v := sectorRequest L { saved s with
    ax := BitVec.ofNat 16 (s.ax.toNat / 36)
    dx := BitVec.ofNat 16 (s.ax.toNat / 18 % 2)
    mem := chsStored L s.ax.toNat ((saved s).push L.afterLbatochs).mem }
  have hvmem : ∀ a, ¬ L.Var a → a < stackLow ∨ (saved s).sp.toNat ≤ a →
      v.mem a = (saved s).mem a := fun a hvar ha =>
    (chsStored_of_not_var hvar _ _).trans
      (State.push_mem_of_apart _ hp.ss (by omega) (by omega))
  have hholds : L.Holds drive v.mem := hp.holds.congr fun a ha =>
    hvmem a (hL.const_not_var ha) (by have hout := (hL.const a ha).2; have := hp.top; omega)
  have hvbyte : ∀ off : Word, v.mem (linear v.ds off) = v.mem off.toNat := fun off => by
    rw [show v.ds = 0 from hs.ds, linear_zero]
  refine ⟨v, ?_, ⟨rfl, rfl, rfl, rfl, rfl, rfl⟩, rfl, rfl, ?_, ?_, hvmem⟩
  · rw [readRequest]
    change ((saved s).call L.afterLbatochs (lbatochs L)).bind _ = _
    rw [call_lbatochs_eq hL hp, Option.bind_some]
    rfl
  · refine (low_setLow _ _).trans ?_
    exact (hvbyte L.BOOT_DISK).trans hholds.BOOT_DISK
  · have hcx : v.cx = setLow (setHigh s.cx (v.mem (linear v.ds L._cylinder)))
        (v.mem (linear v.ds L._sector)) := rfl
    have hdx : v.dx = setLow (setHigh (BitVec.ofNat 16 (s.ax.toNat / 18 % 2))
        (v.mem (linear v.ds L._head))) (v.mem (linear v.ds L.BOOT_DISK)) := rfl
    rw [hvbyte, hvbyte] at hcx hdx
    exact addresses_chsStored hL.apart hlba hcx hdx

/-- A turn of `read_disk` is its request, the interrupt and what comes behind it. -/
theorem readSector_eq (s : State) :
    readSector L int13 s = (readRequest L s).bind fun v =>
      if (int13 v).carry then none else some (readOk L (int13 v)) := by
  rw [readSector, readRequest]
  change ((saved s).call L.afterLbatochs (lbatochs L)).bind _ =
    (((saved s).call L.afterLbatochs (lbatochs L)).bind _).bind _
  rw [Option.bind_assoc]
  rfl

theorem Requests.linear_eq {v : State} (hv : Requests L drive stackLow s v) :
    linear v.es v.bx = linear s.es s.bx := by
  rw [hv.frame.es, hv.bx]
  rfl

/-- What neither the request nor the interrupt writes to. -/
theorem Requests.delivered_mem {v w : State} {block : ℕ → Byte}
    (hv : Requests L drive stackLow s v) (hss : s.ss = 0)
    (hd : Delivered block kept stackLow v w) {a : ℕ} (ha : a ∈ kept) (hvar : ¬ L.Var a)
    (hout : a < linear s.es s.bx ∨ linear s.es s.bx + 512 ≤ a)
    (hstack : a < stackLow ∨ (saved s).sp.toNat ≤ a) : w.mem a = (saved s).mem a := by
  refine (hd.kept a ha (by rwa [hv.linear_eq]) ?_).trans (hv.mem a hvar hstack)
  have hvss : v.ss = 0 := hv.frame.ss.trans hss
  rwa [hvss, linear_zero, hv.frame.sp]

/-- One turn of `read_disk` delivers the block in AX. -/
theorem readSector_spec (hL : Placed L kept stackLow stackTop)
    (hs : CanRead L drive stackLow stackTop 8 s)
    (hlba : s.ax.toNat / 36 < 256)
    (hint : Delivers int13 disk drive kept stackLow s.ax.toNat) :
    ∃ t, readSector L int13 s = some t ∧ s.SameFrame t ∧
      t.ax = s.ax + 1 ∧ t.bx = s.bx + 512 ∧ t.cx = s.cx - 1 ∧
      (∀ j < 512, t.mem (linear s.es s.bx + j) = disk s.ax.toNat j) ∧
      ∀ a ∈ kept, ¬ L.Var a → a < linear s.es s.bx ∨ linear s.es s.bx + 512 ≤ a →
        a < stackLow ∨ s.sp.toNat ≤ a → t.mem a = s.mem a := by
  have hroom := hs.room
  have htopLe := hs.top
  have hp : CanRead L drive stackLow stackTop 2 (saved s) := CanRead.pushAll hL hs
  have hspp : (saved s).sp.toNat = s.sp.toNat - 6 :=
    State.toNat_sp_pushAll (by change 6 ≤ s.sp.toNat; omega)
  have hpmem : ∀ a, a + 6 < s.sp.toNat ∨ s.sp.toNat ≤ a → (saved s).mem a = s.mem a :=
    fun a ha => State.pushAll_mem_of_apart hs.ss (by change 6 ≤ s.sp.toNat; omega) ha
  have hsaved : ∀ i (hi : i < 3),
      word (saved s).mem (s.sp.toNat - 2 * (i + 1)) = [s.ax, s.bx, s.cx].get ⟨i, hi⟩ :=
    fun i hi => State.word_pushAll hs.ss (by change 6 ≤ s.sp.toNat; omega) hi
  -- the interrupt delivers the block
  obtain ⟨v, hrequest, hv⟩ := readRequest_spec hL hs hlba
  have hvss : v.ss = 0 := hv.frame.ss.trans hp.ss
  have hvsp : v.sp = (saved s).sp := hv.frame.sp
  have hd : Delivered (disk s.ax.toNat) kept stackLow v (int13 v) :=
    hint v hv.ax hv.drive hv.addresses (by rw [hv.bx]; exact hs.offset)
  -- the words that were pushed are still there
  have hstack : ∀ a, (saved s).sp.toNat ≤ a → a < s.sp.toNat →
      (int13 v).mem a = (saved s).mem a := fun a hlo hhi =>
    hv.delivered_mem hs.ss hd (hL.stack a (by omega) (by omega))
      (hL.stack_not_var (by omega) (by omega)) (hs.stack_not_buffer (by omega) (by omega))
      (Or.inr hlo)
  have hword : ∀ k, 2 ≤ k → k ≤ 6 →
      word (int13 v).mem (s.sp.toNat - k) = word (saved s).mem (s.sp.toNat - k) :=
    fun k hlo hhi => word_congr (hstack _ (by omega) (by omega)) (hstack _ (by omega) (by omega))
  have hwspNat : (int13 v).sp.toNat = s.sp.toNat - 6 := by rw [hd.frame.sp, hvsp, hspp]
  have hwconst : ∀ a, L.Const a → (int13 v).mem a = (saved s).mem a := by
    intro a ha
    obtain ⟨hkept, hout⟩ := hL.const a ha
    exact hv.delivered_mem hs.ss hd hkept (hL.const_not_var ha) (hs.const_not_buffer ha) (by omega)
  have hsp := s.sp.isLt
  have hok := readOk_eq (hd.frame.ds.trans (hv.frame.ds.trans hp.ds)) (hd.frame.ss.trans hvss)
    (by omega) (hp.holds.congr hwconst).BytesPerSector
  refine ⟨readOk L (int13 v), ?_, ?_⟩
  · rw [readSector_eq, hrequest, Option.bind_some, hd.carry]
    rfl
  rw [hok, hwspNat, show s.sp.toNat - 6 + 4 = s.sp.toNat - 2 by omega,
    show s.sp.toNat - 6 + 2 = s.sp.toNat - 4 by omega, hword 2 (by omega) (by omega),
    hword 4 (by omega) (by omega), hword 6 (by omega) (by omega), hsaved 0 (by omega),
    hsaved 1 (by omega), hsaved 2 (by omega)]
  refine ⟨⟨?_, ?_, ?_, ?_, ?_, ?_⟩, rfl, rfl, rfl, ?_, ?_⟩
  · exact hd.frame.ds.trans hv.frame.ds
  · exact hd.frame.es.trans hv.frame.es
  · exact hd.frame.ss.trans hv.frame.ss
  · change (int13 v).sp + 2 + 2 + 2 = s.sp
    rw [hd.frame.sp, hvsp]
    change s.sp - 2 - 2 - 2 + 2 + 2 + 2 = s.sp
    simp only [BitVec.sub_add_cancel]
  · exact hd.frame.espHigh.trans hv.frame.espHigh
  · exact hd.frame.ebp.trans hv.frame.ebp
  · rw [← hv.linear_eq]
    exact hd.sector
  · intro a ha hvar hout htop
    exact (hv.delivered_mem hs.ss hd ha hvar hout (by omega)).trans (hpmem a (by omega))

/-- A call of `read_disk` for one sector delivers the block in AX. -/
theorem call_readDisk_spec (hL : Placed L kept stackLow stackTop)
    (hs : CanRead L drive stackLow stackTop 10 s)
    (hcx : s.cx = 1) (hlba : s.ax.toNat / 36 < 256)
    (hint : Delivers int13 disk drive kept stackLow s.ax.toNat) (ret : Word) {fuel : ℕ}
    (hfuel : 0 < fuel) :
    ∃ t, s.call ret (readDisk L int13 fuel) = some t ∧ s.SameFrame t ∧
      (∀ j < 512, t.mem (linear s.es s.bx + j) = disk s.ax.toNat j) ∧
      ∀ a ∈ kept, ¬ L.Var a → a < linear s.es s.bx ∨ linear s.es s.bx + 512 ≤ a →
        a < stackLow ∨ s.sp.toNat ≤ a → t.mem a = s.mem a := by
  have hroom := hs.room
  have htopLe := hs.top
  have hpush := hs.push hL ret
  have hsp := State.toNat_sp_push ret (s := s) (by omega)
  obtain ⟨t, hread, hframe, -, -, htcx, hsector, hkept⟩ := readSector_spec hL hpush hlba hint
  -- the count is one, so that the loop ends
  have hloop : doWhile (readSector L int13) (fun s => s.cx != 0) fuel (s.push ret) = some t := by
    have hzero : t.cx = 0 := by
      rw [htcx]
      change s.cx - 1 = 0
      rw [hcx]
      rfl
    obtain ⟨fuel, rfl⟩ := Nat.exists_eq_succ_of_ne_zero hfuel.ne'
    rw [doWhile, hread, Option.bind_eq_bind, Option.bind_some, hzero]
    rfl
  have hdone : readDisk L int13 fuel (s.push ret) = some { t with carry := false } := by
    rw [readDisk, hloop]
    rfl
  have hss : t.ss = 0 := hframe.ss.trans hs.ss
  -- the return address is untouched
  have hret : ∀ a, (s.push ret).sp.toNat ≤ a → a < s.sp.toNat →
      t.mem a = (s.push ret).mem a := by
    intro a hlo hhi
    exact hkept a (hL.stack a (by omega) (by omega)) (hL.stack_not_var (by omega) (by omega))
      (hpush.stack_not_buffer (by omega) (by omega)) (Or.inr hlo)
  have htop : ({ t with carry := false } : State).top = ret := by
    rw [State.top]
    change word t.mem (linear t.ss t.sp) = ret
    rw [hss, linear_zero, hframe.sp]
    rw [word_congr (hret _ (by omega) (by omega)) (hret _ (by omega) (by omega)), hsp]
    exact State.word_push_self ret hs.ss (by omega)
  refine ⟨_, State.call_eq_some hdone htop,
    ⟨hframe.ds, hframe.es, hframe.ss, ?_, hframe.espHigh, hframe.ebp⟩, hsector, ?_⟩
  · change t.sp + 2 = s.sp
    rw [hframe.sp, State.push_sp_add]
  · intro a ha hvar hbuffer htop
    exact (hkept a ha hvar hbuffer (by omega)).trans
      (State.push_mem_of_apart ret hs.ss (by omega) (by omega))

/-- A call of `get_sector_value_op` returns the entry of the cluster in AX. -/
theorem call_getSectorValueOp_spec (hds : s.ds = 0) (hax : s.ax.toNat ≤ 0xFEF) (ret : Word) :
    ∃ t, s.call ret getSectorValueOp = some t ∧ s.SameFrame t ∧ t.mem = (s.push ret).mem ∧
      t.ax.toNat =
        Fat12.entry (fun k => (s.push ret).mem (FAT12_LOCATION.toNat + k)) s.ax.toNat := by
  obtain ⟨t, hget, hframe, hmem, hentry⟩ :=
    getSectorValueOp_spec (s := s.push ret) hds hax
  have htop : t.top = ret := by
    rw [State.top, hframe.ss, hframe.sp, hmem]
    exact State.top_push s ret
  refine ⟨_, State.call_eq_some hget htop,
    ⟨hframe.ds, hframe.es, hframe.ss, ?_, hframe.espHigh, hframe.ebp⟩, hmem, hentry⟩
  change t.sp + 2 = s.sp
  rw [hframe.sp, State.push_sp_add]

end B2OS.Boot
