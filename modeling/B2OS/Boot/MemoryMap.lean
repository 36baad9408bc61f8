import B2OS.Boot.LoadFat

/-!
# The Memory Map

The routine `load_memory_map` of the second stage: it asks INT 15h, function E820h, for one range of
the memory map after the other, each behind the one before, until EBX comes back as zero, and stores
their number in front of them. Whether a call failed is not asked.

The routine uses registers of 32 bits. `Wide` has their upper halves beside the state of the 16-bit
program.

## Main results

* `mapTurn_spec`: one turn of the loop keeps `Mapped`.
* `call_loadMemoryMap_spec`: all ranges of the map lie behind their number.
-/

namespace B2OS.Boot

open RealMode

/-! ### The machine -/

/-- The state with the upper halves of the general registers, the index registers, the flags, CR0
and the gate of the address line A20. -/
structure Wide where
  low : State
  axHigh : Word
  bxHigh : Word
  cxHigh : Word
  dxHigh : Word
  esi : BitVec 32
  edi : BitVec 32
  eflags : BitVec 32
  cr0 : BitVec 32
  a20 : Bool

namespace Wide

def eax (w : Wide) : BitVec 32 := w.axHigh ++ w.low.ax

def ebx (w : Wide) : BitVec 32 := w.bxHigh ++ w.low.bx

def ecx (w : Wide) : BitVec 32 := w.cxHigh ++ w.low.cx

def edx (w : Wide) : BitVec 32 := w.dxHigh ++ w.low.dx

def di (w : Wide) : Word := w.edi.setWidth 16

def setEax (w : Wide) (v : BitVec 32) : Wide :=
  { w with axHigh := v.extractLsb' 16 16, low := { w.low with ax := v.setWidth 16 } }

def setEbx (w : Wide) (v : BitVec 32) : Wide :=
  { w with bxHigh := v.extractLsb' 16 16, low := { w.low with bx := v.setWidth 16 } }

def setEcx (w : Wide) (v : BitVec 32) : Wide :=
  { w with cxHigh := v.extractLsb' 16 16, low := { w.low with cx := v.setWidth 16 } }

def setEdx (w : Wide) (v : BitVec 32) : Wide :=
  { w with dxHigh := v.extractLsb' 16 16, low := { w.low with dx := v.setWidth 16 } }

def setDi (w : Wide) (v : Word) : Wide := { w with edi := w.edi.extractLsb' 16 16 ++ v }

def push (w : Wide) (v : Word) : Wide := { w with low := w.low.push v }

def push32 (w : Wide) (v : BitVec 32) : Wide := { w with low := w.low.push32 v }

/-- The double word on top of the stack. -/
def top32 (w : Wide) : BitVec 32 := w.low.drop.top ++ w.low.top

def drop (w : Wide) : Wide := { w with low := w.low.drop }

/-- Clears the interrupt flag. -/
def cli (w : Wide) : Wide := { w with eflags := w.eflags &&& 0xFFFFFDFF }

/-- Sets the interrupt flag. -/
def sti (w : Wide) : Wide := { w with eflags := w.eflags ||| 0x00000200 }

/-- A call of a routine. A return to another address is not followed. -/
def call (w : Wide) (ret : Word) (routine : Wide → Option Wide) : Option Wide := do
  let w ← routine (w.push ret)
  if w.low.top = ret then some w.drop else none

/-- A routine that leaves the return address on top of the stack returns. -/
theorem call_eq_some {w t : Wide} {ret : Word} {routine : Wide → Option Wide}
    (h : routine (w.push ret) = some t) (htop : t.low.top = ret) :
    w.call ret routine = some t.drop := by
  rw [call, h, Option.bind_eq_bind, Option.bind_some, if_pos htop]

theorem append_halves (v : BitVec 32) : (v.extractLsb' 16 16 ++ v.setWidth 16 : BitVec 32) = v := by
  rw [BitVec.setWidth_eq_extractLsb' (by omega)]
  exact BitVec.extractLsb'_append_extractLsb'

@[simp] theorem eax_setEax (w : Wide) (v : BitVec 32) : (w.setEax v).eax = v := append_halves v

@[simp] theorem ebx_setEbx (w : Wide) (v : BitVec 32) : (w.setEbx v).ebx = v := append_halves v

@[simp] theorem ecx_setEcx (w : Wide) (v : BitVec 32) : (w.setEcx v).ecx = v := append_halves v

@[simp] theorem edx_setEdx (w : Wide) (v : BitVec 32) : (w.setEdx v).edx = v := append_halves v

@[simp] theorem di_setDi (w : Wide) (v : Word) : (w.setDi v).di = v :=
  BitVec.setWidth_append_eq_right

/-- A double word that is pushed is on top of the stack. -/
theorem top32_push32 {w : Wide} (hss : w.low.ss = 0) (hroom : 4 ≤ w.low.sp.toNat) (v : BitVec 32) :
    (w.push32 v).top32 = v := by
  let l : List Word := [v.extractLsb' 16 16, v.setWidth 16]
  have hword : ∀ i (hi : i < 2), word (w.low.pushAll l).mem (w.low.sp.toNat - 2 * (i + 1)) =
      l.get ⟨i, hi⟩ := fun i hi => State.word_pushAll (l := l) hss hroom hi
  have hsp : (w.low.pushAll l).sp.toNat = w.low.sp.toNat - 4 := State.toNat_sp_pushAll hroom
  have hnext : ((w.low.pushAll l).sp + 2).toNat = w.low.sp.toNat - 2 := by
    rw [BitVec.toNat_add, hsp]
    have hlt := w.low.sp.isLt
    simp only [BitVec.reduceToNat]
    omega
  have htop : (w.low.pushAll l).top = v.setWidth 16 := by
    rw [State.top, State.ss_pushAll, hss, linear_zero, hsp]
    exact hword 1 (by omega)
  have hbelow : (w.low.pushAll l).drop.top = v.extractLsb' 16 16 := by
    change word (w.low.pushAll l).mem (linear (w.low.pushAll l).ss ((w.low.pushAll l).sp + 2)) = _
    rw [State.ss_pushAll, hss, linear_zero, hnext]
    exact hword 0 (by omega)
  change (w.low.pushAll l).drop.top ++ (w.low.pushAll l).top = v
  rw [htop, hbelow]
  exact append_halves v

end Wide

/-! ### The routine -/

/-- The double word at an address. -/
def dword (mem : Memory) (a : ℕ) : BitVec 32 := word mem (a + 2) ++ word mem a

def MEMORY_MAP : Word := 0x5C00

/-- The magic number `SMAP`. -/
def SMAP : BitVec 32 := 0x534D4150

/-- The start of `load_memory_map`, up to its loop. -/
def mapStart (w : Wide) : Wide :=
  let w := w.setEbx 0
  let w := w.push w.di
  let w := w.setEax 0
  w.push32 w.eax

/-- `load_memory_map_loop` up to its call of INT 15h. -/
def mapRequest (w : Wide) : Wide :=
  let w := w.setDi (w.di + 24)
  let w := (w.setEax w.top32).drop.drop
  let w := w.setEax (w.eax + 1)
  let w := w.push32 w.eax
  let w := w.setEdx SMAP
  let w := w.setEcx 24
  w.setEax 0xE820

/-- One turn of `load_memory_map_loop`. -/
def mapTurn (int15 : Wide → Wide) (w : Wide) : Wide :=
  let w := int15 (mapRequest w)
  w.cli

/-- The end of `load_memory_map`, behind its loop. -/
def mapEnd (w : Wide) : Wide :=
  let w := (w.setEax w.top32).drop.drop
  let w := (w.setDi w.low.top).drop
  let mem := storeWord w.low.mem (linear w.low.ds w.di) (w.eax.setWidth 16)
  { w with low := { w.low with
      mem := storeWord mem (linear w.low.ds w.di + 2) (w.eax.extractLsb' 16 16) } }

/-- Stores the memory map at ES:DI. -/
def loadMemoryMap (int15 : Wide → Wide) (fuel : ℕ) (w : Wide) : Option Wide := do
  let w ← doWhile (fun w => some (mapTurn int15 w)) (fun w => w.ebx != 0) fuel (mapStart w)
  some (mapEnd w)

/-! ### INT 15h -/

/-- INT 15h, function E820h, has stored the bytes of a range at ES:DI, and the next continuation
value is in EBX. The buffer has 24 bytes. -/
structure RangeStored (range : List Byte) (next : BitVec 32) (kept : Set ℕ) (stackLow : ℕ)
    (w t : Wide) : Prop where
  frame : w.low.SameFrame t.low
  di : t.di = w.di
  ebx : t.ebx = next
  range : ∀ j < range.length, t.low.mem (linear w.low.es w.di + j) = range.getD j 0
  kept : ∀ a ∈ kept, a < linear w.low.es w.di ∨ linear w.low.es w.di + 24 ≤ a →
    a < stackLow ∨ linear w.low.ss w.low.sp ≤ a → t.low.mem a = w.low.mem a

/-- The BIOS reports a map of `n` ranges. It is asked with the continuation value 0 first, and
returns 0 with the last range. -/
structure ReportsMap (int15 : Wide → Wide) (range : ℕ → List Byte) (n : ℕ) (kept : Set ℕ)
    (stackLow : ℕ) : Prop where
  pos : 0 < n
  size : ∀ i < n, (range i).length ≤ 24
  stores : ∃ continuation : ℕ → BitVec 32, continuation 0 = 0 ∧
    (∀ i < n, continuation (i + 1) ≠ 0 ↔ i + 1 < n) ∧
    ∀ i < n, ∀ w : Wide, w.eax = 0xE820 → w.ebx = continuation i → w.ecx = 24 → w.edx = SMAP →
      w.di.toNat + 24 ≤ 65536 →
        RangeStored (range i) (continuation (i + 1)) kept stackLow w (int15 w)

/-! ### The loop -/

/-- The place of the number and of the ranges. -/
def mapBuffer (base : Word) (n : ℕ) : Set ℕ := Set.Ico base.toNat (base.toNat + 24 * (n + 1))

/-- After `i` turns from `w₀`: the first `i` ranges are stored, and their number is on top of the
stack. -/
structure Mapped (range : ℕ → List Byte) (continuation : ℕ → BitVec 32) (n : ℕ) (kept : Set ℕ)
    (stackLow : ℕ) (base : Word) (w₀ : Wide) (i : ℕ) (w : Wide) : Prop where
  frame : w₀.low.SameFrame w.low
  di : w.di.toNat = base.toNat + 24 * i
  ebx : w.ebx = continuation i
  count : w.top32 = BitVec.ofNat 32 i
  kept : ∀ a ∈ kept, a ∉ mapBuffer base n → a < stackLow ∨ w₀.low.sp.toNat + 4 ≤ a →
    w.low.mem a = w₀.low.mem a
  ranges : ∀ k < i, ∀ j < (range k).length,
    w.low.mem (base.toNat + 24 * (k + 1) + j) = (range k).getD j 0

section Turn

variable {int15 : Wide → Wide} {range : ℕ → List Byte} {continuation : ℕ → BitVec 32}
  {n i stackLow stackTop : ℕ} {kept : Set ℕ} {base : Word} {w₀ w : Wide}

/-- What a turn asks for: the next 24 bytes, with the number counted up on the stack. -/
theorem mapRequest_spec (hss : w.low.ss = 0) (hsp : w.low.sp.toNat + 4 < 65536) :
    let v := mapRequest w
    v.eax = 0xE820 ∧ v.ebx = w.ebx ∧ v.ecx = 24 ∧ v.edx = SMAP ∧ v.di = w.di + 24 ∧
      w.low.SameFrame v.low ∧ v.top32 = w.top32 + 1 ∧
      ∀ a, a < w.low.sp.toNat ∨ w.low.sp.toNat + 4 ≤ a → v.low.mem a = w.low.mem a := by
  let p : Wide := ((w.setDi (w.di + 24)).setEax w.top32).drop.drop
  let u : Wide := p.setEax (w.top32 + 1)
  have hcount : p.eax = w.top32 := Wide.eax_setEax (w.setDi (w.di + 24)) w.top32
  have hrequest : mapRequest w =
      (((u.push32 (w.top32 + 1)).setEdx SMAP).setEcx 24).setEax 0xE820 := by
    change (((((p.setEax (p.eax + 1)).push32 (p.setEax (p.eax + 1)).eax).setEdx SMAP).setEcx
      24).setEax 0xE820) = _
    rw [hcount, Wide.eax_setEax]
  have husp : u.low.sp.toNat = w.low.sp.toNat + 4 := by
    change (w.low.sp + 2 + 2).toNat = _
    rw [BitVec.toNat_add, BitVec.toNat_add]
    simp only [BitVec.reduceToNat]
    omega
  have hback : (u.push32 (w.top32 + 1)).low.sp = w.low.sp := by
    change w.low.sp + 2 + 2 - 2 - 2 = w.low.sp
    rw [BitVec.add_sub_cancel, BitVec.add_sub_cancel]
  let q : Wide := u.push32 (w.top32 + 1)
  rw [hrequest]
  refine ⟨Wide.eax_setEax ((q.setEdx SMAP).setEcx 24) _, rfl, Wide.ecx_setEcx (q.setEdx SMAP) _,
    Wide.edx_setEdx q _, Wide.di_setDi w _, ⟨rfl, rfl, rfl, hback, rfl, rfl⟩,
    Wide.top32_push32 (w := u) hss (by omega) _, fun a ha => ?_⟩
  · exact State.pushAll_mem_of_apart (s := u.low) (l := [_, _]) hss
      (by change 4 ≤ u.low.sp.toNat; omega) (by change a + 4 < _ ∨ _; omega)

/-- Below the stack lies the buffer, and both are kept. -/
structure MapPlace (kept : Set ℕ) (stackLow stackTop : ℕ) (base : Word) (n : ℕ) : Prop where
  stack : ∀ a, stackLow ≤ a → a < stackTop → a ∈ kept
  buffer : mapBuffer base n ⊆ kept
  below : base.toNat + 24 * (n + 1) ≤ stackLow
  top : stackTop < 65536

/-- One turn stores one range more. -/
theorem mapTurn_spec (hplace : MapPlace kept stackLow stackTop base n)
    (hss : w₀.low.ss = 0) (hes : w₀.low.es = 0) (hlow : stackLow ≤ w₀.low.sp.toNat)
    (htop : w₀.low.sp.toNat + 4 ≤ stackTop) (hi : i < n) (hsize : (range i).length ≤ 24)
    (hstores : ∀ v : Wide, v.eax = 0xE820 → v.ebx = continuation i → v.ecx = 24 → v.edx = SMAP →
      v.di.toNat + 24 ≤ 65536 →
        RangeStored (range i) (continuation (i + 1)) kept stackLow v (int15 v))
    (hall : ∀ k < i, (range k).length ≤ 24)
    (hw : Mapped range continuation n kept stackLow base w₀ i w) :
    Mapped range continuation n kept stackLow base w₀ (i + 1) (mapTurn int15 w) := by
  have hbelow := hplace.below
  have hstackTop := hplace.top
  have hwss : w.low.ss = 0 := hw.frame.ss.trans hss
  have hwsp : w.low.sp.toNat = w₀.low.sp.toNat := congrArg BitVec.toNat hw.frame.sp
  obtain ⟨heax, hebx, hecx, hedx, hdi, hframe, hcount, hmem⟩ :=
    mapRequest_spec hwss (w := w) (by omega)
  have hdiNat : (mapRequest w).di.toNat = base.toNat + 24 * (i + 1) := by
    have hstep : (24 : Word).toNat = 24 := rfl
    rw [hdi, BitVec.toNat_add, hw.di, hstep]
    omega
  have hrange := hstores _ heax (hebx.trans hw.ebx) hecx hedx (by omega)
  -- the buffer of this range, and the stack
  have hbuffer : linear (mapRequest w).low.es (mapRequest w).di = base.toNat + 24 * (i + 1) := by
    rw [hframe.es, hw.frame.es, hes, linear_zero, hdiNat]
  have hstack : linear (mapRequest w).low.ss (mapRequest w).low.sp = w₀.low.sp.toNat := by
    rw [hframe.ss, hwss, linear_zero, hframe.sp, hwsp]
  have hkept := hrange.kept
  have hstored := hrange.range
  rw [hbuffer] at hkept hstored
  rw [hstack] at hkept
  have hsp4 : ∀ j < 4, (int15 (mapRequest w)).low.mem (w₀.low.sp.toNat + j) =
      (mapRequest w).low.mem (w₀.low.sp.toNat + j) := fun j hj =>
    hkept _ (hplace.stack _ (by omega) (by omega)) (by omega) (by omega)
  refine ⟨hw.frame.trans (hframe.trans hrange.frame), ?_, hrange.ebx, ?_, fun a ha hbuf hout => ?_,
    fun k hk j hj => ?_⟩
  · change (int15 (mapRequest w)).di.toNat = _
    rw [hrange.di, hdiNat]
  · have hsame : (int15 (mapRequest w)).top32 = (mapRequest w).top32 := by
      have hnext : (w₀.low.sp + 2).toNat = w₀.low.sp.toNat + 2 := by
        rw [BitVec.toNat_add]
        simp only [BitVec.reduceToNat]
        omega
      have hfull := hrange.frame
      simp only [Wide.top32, State.top, State.drop, hfull.ss, hfull.sp, hframe.ss, hframe.sp, hwss,
        hw.frame.sp, linear_zero, hnext]
      have hfirst := hsp4 0 (by omega)
      rw [Nat.add_zero] at hfirst
      rw [word_congr hfirst (hsp4 1 (by omega)), word_congr (hsp4 2 (by omega)) (hsp4 3 (by omega))]
    change (int15 (mapRequest w)).top32 = _
    rw [hsame, hcount, hw.count, BitVec.ofNat_add]
    rfl
  · rw [mapBuffer, Set.mem_Ico] at hbuf
    change (int15 (mapRequest w)).low.mem a = _
    rw [hkept a ha (by omega) (by omega), hmem a (by omega)]
    exact hw.kept a ha (by rwa [mapBuffer, Set.mem_Ico]) hout
  · change (int15 (mapRequest w)).low.mem _ = _
    rcases Nat.lt_succ_iff_lt_or_eq.mp hk with hlt | rfl
    · have hlength := hall k hlt
      have hin : base.toNat + 24 * (k + 1) + j ∈ kept := by
        refine hplace.buffer ?_
        rw [mapBuffer, Set.mem_Ico]
        omega
      rw [hkept _ hin (by omega) (by omega), hmem _ (by omega)]
      exact hw.ranges k hlt j hj
    · exact hstored j hj

/-! ### The call -/

/-- The stack at the start of the loop: the number, above it the address of the buffer and the
return address. -/
theorem mapStart_spec (ret : Word) (hss : w.low.ss = 0) (hroom : 8 ≤ w.low.sp.toNat) :
    let w₀ := mapStart (w.push ret)
    w₀.low.sp.toNat = w.low.sp.toNat - 8 ∧ w₀.ebx = 0 ∧ w₀.di = w.di ∧ w₀.top32 = 0 ∧
      word w₀.low.mem (w.low.sp.toNat - 4) = w.di ∧ word w₀.low.mem (w.low.sp.toNat - 2) = ret ∧
      ({ w.low with sp := w₀.low.sp } : State).SameFrame w₀.low ∧
      ∀ a, a + 8 < w.low.sp.toNat ∨ w.low.sp.toNat ≤ a → w₀.low.mem a = w.low.mem a := by
  let u : Wide := (((w.push ret).setEbx 0).push w.di).setEax 0
  let l : List Word := [ret, w.di, BitVec.extractLsb' 16 16 (0 : BitVec 32),
    BitVec.setWidth 16 (0 : BitVec 32)]
  have hstart : mapStart (w.push ret) = u.push32 0 := by
    change u.push32 u.eax = _
    rw [Wide.eax_setEax]
  have husp : u.low.sp.toNat = w.low.sp.toNat - 4 :=
    State.toNat_sp_pushAll (s := w.low) (l := [ret, w.di]) (by change 4 ≤ _; omega)
  have hword : ∀ i (hi : i < 4), word (u.push32 0).low.mem (w.low.sp.toNat - 2 * (i + 1)) =
      l.get ⟨i, hi⟩ := fun i hi => State.word_pushAll (s := w.low) (l := l) hss hroom hi
  rw [hstart]
  refine ⟨State.toNat_sp_pushAll (s := w.low) (l := l) hroom, Wide.ebx_setEbx (w.push ret) 0, rfl,
    Wide.top32_push32 (w := u) hss (by omega) 0, hword 1 (by omega), hword 0 (by omega),
    ⟨rfl, rfl, rfl, rfl, rfl, rfl⟩, fun a ha => ?_⟩
  exact State.pushAll_mem_of_apart (s := w.low) (l := l) hss hroom ha

/-- The end of the routine stores the number at the saved address, and leaves the return address on
top of the stack. -/
theorem mapEnd_spec (hds : w.low.ds = 0) (hss : w.low.ss = 0) (hsp : w.low.sp.toNat + 6 < 65536)
    (hsaved : word w.low.mem (w.low.sp.toNat + 4) = base) :
    let t := mapEnd w
    t.low.sp.toNat = w.low.sp.toNat + 6 ∧ ({ w.low with sp := t.low.sp } : State).SameFrame t.low ∧
      t.low.mem = storeWord (storeWord w.low.mem base.toNat (w.top32.setWidth 16))
        (base.toNat + 2) (w.top32.extractLsb' 16 16) := by
  let p : Wide := (w.setEax w.top32).drop.drop
  have htwo : (w.low.sp + 2 + 2).toNat = w.low.sp.toNat + 4 := by
    rw [BitVec.toNat_add, BitVec.toNat_add]
    simp only [BitVec.reduceToNat]
    omega
  have hbase : p.low.top = base := by
    change word w.low.mem (linear w.low.ss (w.low.sp + 2 + 2)) = base
    rw [hss, linear_zero, htwo, hsaved]
  have hdi : (p.setDi p.low.top).di = base := (Wide.di_setDi p p.low.top).trans hbase
  have heax : (w.setEax w.top32).eax = w.top32 := Wide.eax_setEax w w.top32
  have hend : mapEnd w = { (p.setDi p.low.top).drop with
      low := { (p.setDi p.low.top).drop.low with
        mem := storeWord (storeWord w.low.mem base.toNat (w.top32.setWidth 16))
          (base.toNat + 2) (w.top32.extractLsb' 16 16) } } := by
    have hplace : linear w.low.ds (p.setDi p.low.top).di = base.toNat := by
      rw [hds, linear_zero, hdi]
    rw [← heax, ← hplace]
    rfl
  rw [hend]
  refine ⟨?_, ⟨rfl, rfl, rfl, rfl, rfl, rfl⟩, rfl⟩
  change (w.low.sp + 2 + 2 + 2).toNat = _
  rw [BitVec.toNat_add, htwo]
  simp only [BitVec.reduceToNat]
  omega

/-- A call of `load_memory_map` stores the number of the ranges, and the ranges behind it, in the
order of the BIOS; it writes to the buffer and to the stack only. -/
theorem call_loadMemoryMap_spec (ret : Word) (hplace : MapPlace kept stackLow stackTop w.di n)
    (hds : w.low.ds = 0) (hes : w.low.es = 0) (hss : w.low.ss = 0)
    (hroom : stackLow + 8 ≤ w.low.sp.toNat) (htop : w.low.sp.toNat ≤ stackTop)
    (hmap : ReportsMap int15 range n kept stackLow) {fuel : ℕ} (hfuel : n ≤ fuel) :
    ∃ t, w.call ret (loadMemoryMap int15 fuel) = some t ∧ w.low.SameFrame t.low ∧
      dword t.low.mem w.di.toNat = BitVec.ofNat 32 n ∧
      (∀ k < n, ∀ j < (range k).length,
        t.low.mem (w.di.toNat + 24 * (k + 1) + j) = (range k).getD j 0) ∧
      ∀ a ∈ kept, a ∉ mapBuffer w.di n → a < stackLow ∨ w.low.sp.toNat ≤ a →
        t.low.mem a = w.low.mem a := by
  have hbelow := hplace.below
  have hstackTop := hplace.top
  obtain ⟨continuation, hfirst, hlast, hstores⟩ := hmap.stores
  obtain ⟨hsp, hebx, hdi, hcount, hsaved, hret, hframe, hmem⟩ :=
    mapStart_spec ret hss (w := w) (by omega)
  obtain ⟨t, hloop, ht⟩ : ∃ t, doWhile (fun w => some (mapTurn int15 w)) (fun w => w.ebx != 0) fuel
        (mapStart (w.push ret)) = some t ∧
      Mapped range continuation n kept stackLow w.di (mapStart (w.push ret)) n t := by
    refine doWhile_inv
      (fun i a => Mapped range continuation n kept stackLow w.di (mapStart (w.push ret)) i a)
      (fun i hi a ha => ?_) hmap.pos hfuel
      ⟨⟨rfl, rfl, rfl, rfl, rfl, rfl⟩, congrArg BitVec.toNat hdi, hebx.trans hfirst.symm, hcount,
        fun _ _ _ _ => rfl, fun k hk => absurd hk (Nat.not_lt_zero k)⟩
    have hturn := mapTurn_spec hplace (hframe.ss.trans hss) (hframe.es.trans hes) (by omega)
      (by omega) hi (hmap.size i hi) (hstores i hi) (fun k hk => hmap.size k (by omega)) ha
    refine ⟨_, rfl, hturn, ?_⟩
    rw [bne_iff_ne, hturn.ebx]
    exact hlast i hi
  have htsp : t.low.sp.toNat = w.low.sp.toNat - 8 :=
    (congrArg BitVec.toNat ht.frame.sp).trans hsp
  have htds : t.low.ds = 0 := ht.frame.ds.trans (hframe.ds.trans hds)
  have htss : t.low.ss = 0 := ht.frame.ss.trans (hframe.ss.trans hss)
  -- the saved words are still there
  have hstack : ∀ a, w.low.sp.toNat - 4 ≤ a → a < w.low.sp.toNat →
      t.low.mem a = (mapStart (w.push ret)).low.mem a := fun a hlo hhi => by
    refine ht.kept a (hplace.stack a (by omega) (by omega)) (fun hbuf => ?_) (by omega)
    rw [mapBuffer, Set.mem_Ico] at hbuf
    omega
  have htsaved : word t.low.mem (t.low.sp.toNat + 4) = w.di := by
    rw [htsp, show w.low.sp.toNat - 8 + 4 = w.low.sp.toNat - 4 by omega,
      word_congr (hstack _ (by omega) (by omega)) (hstack _ (by omega) (by omega)), hsaved]
  obtain ⟨hesp, heframe, hemem⟩ := mapEnd_spec htds htss (by omega) htsaved
  rw [ht.count] at hemem
  have hother : ∀ a, a < w.di.toNat ∨ w.di.toNat + 4 ≤ a → (mapEnd t).low.mem a = t.low.mem a :=
    fun a ha => by
      rw [hemem, storeWord_of_ne (by omega) (by omega), storeWord_of_ne (by omega) (by omega)]
  have hless := hmap.pos
  have htop : (mapEnd t).low.top = ret := by
    rw [State.top, heframe.ss, htss, linear_zero, hesp, htsp,
      show w.low.sp.toNat - 8 + 6 = w.low.sp.toNat - 2 by omega,
      word_congr (hother _ (by omega)) (hother _ (by omega)),
      word_congr (hstack _ (by omega) (by omega)) (hstack _ (by omega) (by omega)), hret]
  have hrun : loadMemoryMap int15 fuel (w.push ret) = some (mapEnd t) := by
    rw [loadMemoryMap, hloop]
    rfl
  refine ⟨_, Wide.call_eq_some hrun htop, ⟨?_, ?_, ?_, ?_, ?_, ?_⟩, ?_, fun k hk j hj => ?_,
    fun a ha hbuf hout => ?_⟩
  · exact heframe.ds.trans (ht.frame.ds.trans hframe.ds)
  · exact heframe.es.trans (ht.frame.es.trans hframe.es)
  · exact heframe.ss.trans (ht.frame.ss.trans hframe.ss)
  · have htwo : (2 : Word).toNat = 2 := rfl
    apply BitVec.eq_of_toNat_eq
    change ((mapEnd t).low.sp + 2).toNat = _
    rw [BitVec.toNat_add, hesp, htsp, htwo]
    omega
  · exact heframe.espHigh.trans (ht.frame.espHigh.trans hframe.espHigh)
  · exact heframe.ebp.trans (ht.frame.ebp.trans hframe.ebp)
  · change dword (mapEnd t).low.mem _ = _
    rw [dword, hemem, word_storeWord, word_storeWord_of_apart (Or.inl le_rfl), word_storeWord]
    exact Wide.append_halves _
  · change (mapEnd t).low.mem _ = _
    rw [hother _ (by omega)]
    exact ht.ranges k hk j hj
  · change (mapEnd t).low.mem _ = _
    have hbuf' := hbuf
    rw [mapBuffer, Set.mem_Ico] at hbuf'
    rw [hother _ (by omega), ht.kept a ha hbuf (by omega), hmem a (by omega)]

end Turn

end B2OS.Boot
