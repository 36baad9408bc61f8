import B2OS.Lib.WrapStack
import B2OS.Apple2.Arms
import B2OS.Apple2.BankedMemory
import B2OS.Apple2.Refine

/-!
# The Stack of the Guest Program

The processor pushes and pulls in three ways: through the byte helpers (`PHA`, `PHP`),
through the word helpers (`JSR`, `RTS`) and by hand (`BRK`, `RTI`). All of them treat page
$01 as one wrapping stack, an instance of `WrapStack.Holds`: each kind of push puts
`StackKind.saved` on it, and the matching pull takes exactly that off again.

`Nested` are the well-nested stretches of a guest program. Over one the stack is
transparent: every pull restores what its push saved.

## Main results

* `push_spec`, `pull_spec`: what one push and one pull do to the stack.
* `nested_restores`: the run lemma, on any bus whose page $01 is plain storage.
* `stack_transparent`: the result for the machine, with 256 bytes of room.
-/

universe u

namespace B2OS

open BusProg WrapStack

/-- The kinds of push, each with its pull. -/
inductive StackKind
  | accumulator
  | status
  | call
  | interrupt
deriving DecidableEq, Repr

namespace StackKind

def push : StackKind → Opcode
  | accumulator => .PHA
  | status => .PHP
  | call => .JSR
  | interrupt => .BRK

def pull : StackKind → Opcode
  | accumulator => .PLA
  | status => .PLP
  | call => .RTS
  | interrupt => .RTI

/-- The number of bytes on the stack. -/
def size : StackKind → ℕ
  | accumulator => 1
  | status => 1
  | call => 2
  | interrupt => 3

/-- The bytes that a push leaves on the stack, top first, from the registers before the
instruction. -/
def saved (c : Cpu) : StackKind → List BYTE
  | accumulator => [c.A]
  | status => [c.PS.toByte ||| FLAG_BREAK]
  | call => [(c.PC + 2).setWidth 8, ((c.PC + 2) >>> 8).setWidth 8]
  | interrupt =>
      [c.PS.toByte ||| FLAG_BREAK, (c.PC + 2).setWidth 8, ((c.PC + 2) >>> 8).setWidth 8]

@[simp] theorem length_saved (kind : StackKind) (c : Cpu) :
    (kind.saved c).length = kind.size := by
  cases kind <;> rfl

end StackKind

/-- The flags that `PHP` and `BRK` save. -/
def SameFlags (f f' : StatusFlags) : Prop :=
  f'.N = f.N ∧ f'.V = f.V ∧ f'.D = f.D ∧ f'.I = f.I ∧ f'.Z = f.Z ∧ f'.C = f.C

/-- A push and its pull: the registers before the push and after the pull. -/
structure Frame where
  kind : StackKind
  before : Cpu
  after : Cpu

/-- The pull got back what the push saved. -/
def Frame.Restored (f : Frame) : Prop :=
  match f.kind with
  | .accumulator => f.after.A = f.before.A
  | .status => SameFlags f.before.PS f.after.PS
  | .call => f.after.PC = f.before.PC + 3
  | .interrupt => SameFlags f.before.PS f.after.PS ∧ f.after.PC = f.before.PC + 2

/-- Page $01. -/
def stackPage : Set WORD := {address | 0x0100 ≤ address.toNat ∧ address.toNat ≤ 0x01FF}

/-- The address of the stack cell that a stack pointer names. -/
def stackAddr (sp : BYTE) : WORD := STACK_ADDRESS + sp.setWidth 16

theorem toNat_stackAddr (sp : BYTE) : (stackAddr sp).toNat = 0x0100 + sp.toNat := by
  have hsp := sp.isLt
  rw [stackAddr, BitVec.toNat_add, BitVec.toNat_setWidth]
  change (0x0100 + sp.toNat % 2 ^ 16) % 2 ^ 16 = 0x0100 + sp.toNat
  omega

theorem stackAddr_mem (sp : BYTE) : stackAddr sp ∈ stackPage := by
  have hsp := sp.isLt
  have haddr := toNat_stackAddr sp
  constructor <;> omega

theorem stackAddr_inj {sp sp' : BYTE} : stackAddr sp = stackAddr sp' ↔ sp = sp' := by
  constructor
  · intro h
    have hnat := congrArg BitVec.toNat h
    rw [toNat_stackAddr, toNat_stackAddr] at hnat
    exact BitVec.eq_of_toNat_eq (by omega)
  · rintro rfl
    rfl

section Bus

variable {σ : Type u} (bus : Bus WORD BYTE σ) (order : EvalOrder)

/-- The well-nested stretches of a guest program from `x` to `y` that put at most `room`
bytes on the stack, with the frames of their pushes and pulls. An instruction in between
leaves the stack pointer and page $01 alone. -/
inductive Nested : ℕ → Cpu × σ → Cpu × σ → List Frame → Prop
  | nil (room : ℕ) (x : Cpu × σ) : Nested room x x []
  | other {room : ℕ} {x y : Cpu × σ} {frames : List Frame}
      (hop : ∀ o, Opcode.ofByte (nextOpcode bus x) = some o → o.usesStack = false)
      (hno : ∀ a ∈ stackPage, ∀ v,
        Access.write a v ∉ (((acStep order).run x.1).exec bus x.2).accesses)
      (hrest : Nested room (acIteration bus order x) y frames) : Nested room x y frames
  | pair {room : ℕ} {x y z : Cpu × σ} {inner outer : List Frame} (kind : StackKind)
      (hpush : Opcode.ofByte (nextOpcode bus x) = some kind.push)
      (hroom : kind.size ≤ room)
      (hinner : Nested (room - kind.size) (acIteration bus order x) y inner)
      (hpull : Opcode.ofByte (nextOpcode bus y) = some kind.pull)
      (hrest : Nested room (acIteration bus order y) z outer) :
      Nested room x z
        (⟨kind, x.1, (acIteration bus order y).1⟩ :: inner ++ outer)

end Bus

/-! ### One instruction -/

section Step

variable {σ : Type u} {bus : Bus WORD BYTE σ} {order : EvalOrder} {cell : σ → WORD → BYTE}

/-- The stack cells of a bus state. -/
def stackCells (cell : σ → WORD → BYTE) (s : σ) (sp : BYTE) : BYTE := cell s (stackAddr sp)

/-- A read anywhere keeps the stack. -/
theorem holds_read (hram : bus.RamOn stackPage cell) {s : σ} {sp : BYTE} {xs : List BYTE}
    (h : Holds (stackCells cell s) sp xs) (a : WORD) :
    Holds (stackCells cell (bus.read a s).2) sp xs :=
  h.congr fun i => hram.read_cell a s _ (stackAddr_mem i)

/-- A write to the free cell, with the pointer lowered after it, pushes. -/
theorem holds_write (hram : bus.RamOn stackPage cell) {s : σ} {sp : BYTE} {xs : List BYTE}
    (h : Holds (stackCells cell s) sp xs) (hfree : xs.length < 256) (v : BYTE) :
    Holds (stackCells cell (bus.write (stackAddr sp) v s)) (sp - 1) (v :: xs) :=
  h.push hfree (hram.write_self _ (stackAddr_mem sp) v s) fun i hi =>
    hram.write_other _ v s _ (stackAddr_mem i) fun heq => hi (stackAddr_inj.mp heq.symm)

/-- A read of the cell above the pointer answers the top. -/
theorem read_top (hram : bus.RamOn stackPage cell) {s : σ} {sp : BYTE} {xs : List BYTE}
    {v : BYTE} (h : Holds (stackCells cell s) sp (v :: xs)) :
    (bus.read (stackAddr (sp + 1)) s).1 = v :=
  (hram.read_val _ (stackAddr_mem _) s).trans h.top

/-- A push puts its saved bytes on the stack. -/
theorem push_spec (hram : bus.RamOn stackPage cell) {x : Cpu × σ} {xs : List BYTE}
    (kind : StackKind) (hop : Opcode.ofByte (nextOpcode bus x) = some kind.push)
    (hroom : xs.length + kind.size ≤ 256)
    (h : Holds (stackCells cell x.2) x.1.SP xs) :
    (acIteration bus order x).1.SP = x.1.SP - BitVec.ofNat 8 kind.size ∧
      Holds (stackCells cell (acIteration bus order x).2) (acIteration bus order x).1.SP
        (kind.saved x.1 ++ xs) := by
  obtain ⟨c, s⟩ := x
  have hfetch := holds_read hram h c.PC
  have hpc : c.PC + 1#16 + 1#16 = c.PC + 2#16 := by rw [BitVec.add_assoc]; rfl
  have hsp2 : c.SP - 1#8 - 1#8 = c.SP - 2#8 := by rw [BitVec.sub_sub]; rfl
  have hsp3 : c.SP - 2#8 - 1#8 = c.SP - 3#8 := by rw [BitVec.sub_sub]; rfl
  rw [acIteration, exec_acStep order hop]
  cases kind <;> simp only [StackKind.size] at hroom
  case accumulator =>
    have hA := holds_write hram hfetch (by omega) c.A
    simpa [acExecute, StackKind.push, StackKind.size, StackKind.saved, stackAddr] using hA
  case status =>
    have hPS := holds_write hram hfetch (by omega) (c.PS.toByte ||| FLAG_BREAK)
    simpa [acExecute, armPHP, StackKind.push, StackKind.size, StackKind.saved, stackAddr]
      using hPS
  case call =>
    have hread := holds_read hram (holds_read hram hfetch (c.PC + 1#16)) (c.PC + 2#16)
    have hhi := holds_write hram hread (by omega) (((c.PC + 2#16) >>> 8).setWidth 8)
    have hlo := holds_write hram hhi (by simp; omega) ((c.PC + 2#16).setWidth 8)
    simpa [acExecute, armJSR, StackKind.push, StackKind.size, StackKind.saved, stackAddr,
      setPC, hpc, hsp2] using hlo
  case interrupt =>
    have hhi := holds_write hram hfetch (by omega) (((c.PC + 2#16) >>> 8).setWidth 8)
    have hlo := holds_write hram hhi (by simp; omega) ((c.PC + 2#16).setWidth 8)
    have hPS := holds_write hram hlo (by simp; omega) (c.PS.toByte ||| FLAG_BREAK)
    cases order with
    | leftFirst =>
        have hvec := holds_read hram (holds_read hram hPS 0xFFFE) 0xFFFF
        simpa [acExecute, armBRK, readVector, StackKind.push, StackKind.size,
          StackKind.saved, stackAddr, setPC, setSP, setPS, safeDec, STACK_ADDRESS,
          hpc, hsp2, hsp3] using hvec
    | rightFirst =>
        have hvec := holds_read hram (holds_read hram hPS 0xFFFF) 0xFFFE
        simpa [acExecute, armBRK, readVector, StackKind.push, StackKind.size,
          StackKind.saved, stackAddr, setPC, setSP, setPS, safeDec, STACK_ADDRESS,
          hpc, hsp2, hsp3] using hvec

/-- The two bytes of a saved address make it up again. -/
theorem mkWord_saved (w : WORD) : mkWord (w.setWidth 8) ((w >>> 8).setWidth 8) = w := by
  apply BitVec.eq_of_toNat_eq
  have hw := w.isLt
  rw [Mos6502.mkWord_toNat, BitVec.toNat_setWidth, BitVec.toNat_setWidth,
    BitVec.toNat_ushiftRight, Nat.shiftRight_eq_div_pow]
  omega

/-- The flags come back from the byte that `PHP` and `BRK` push; the unused bit that
`PLP` sets on top of it is no flag. -/
theorem sameFlags_pulled (f : StatusFlags) :
    SameFlags f (.ofByte (f.toByte ||| FLAG_BREAK)) ∧
      SameFlags f (.ofByte (f.toByte ||| FLAG_BREAK ||| FLAG_UNUSED)) := by
  obtain ⟨c, z, i, d, b, u, v, n⟩ := f
  revert c z i d b u v n
  unfold SameFlags
  decide

/-- A pull takes the bytes of its push off the stack and restores what they save. -/
theorem pull_spec (hram : bus.RamOn stackPage cell) {before : Cpu} {y : Cpu × σ}
    {xs : List BYTE} (kind : StackKind)
    (hop : Opcode.ofByte (nextOpcode bus y) = some kind.pull)
    (h : Holds (stackCells cell y.2) y.1.SP (kind.saved before ++ xs)) :
    (acIteration bus order y).1.SP = y.1.SP + BitVec.ofNat 8 kind.size ∧
      Holds (stackCells cell (acIteration bus order y).2) (acIteration bus order y).1.SP xs ∧
      Frame.Restored ⟨kind, before, (acIteration bus order y).1⟩ := by
  obtain ⟨c, s⟩ := y
  have hfetch := holds_read hram h c.PC
  have hsp2 : c.SP + 1#8 + 1#8 = c.SP + 2#8 := by rw [BitVec.add_assoc]; rfl
  have hsp3 : c.SP + 2#8 + 1#8 = c.SP + 3#8 := by rw [BitVec.add_assoc]; rfl
  rw [acIteration, exec_acStep order hop]
  cases kind
  case accumulator =>
    have htop := read_top hram hfetch
    have hpop := holds_read hram hfetch.pop (stackAddr (c.SP + 1))
    simpa [acExecute, StackKind.pull, StackKind.size, Frame.Restored, setA, stackAddr]
      using And.intro hpop htop
  case status =>
    have htop := read_top hram hfetch
    have hpop := holds_read hram hfetch.pop (stackAddr (c.SP + 1))
    have hflags : SameFlags before.PS (.ofByte ((bus.read (stackAddr (c.SP + 1))
        (bus.read c.PC s).2).1 ||| FLAG_UNUSED)) := by
      rw [htop]
      exact (sameFlags_pulled before.PS).2
    simpa [acExecute, armPLP, StackKind.pull, StackKind.size, Frame.Restored, setPS,
      stackAddr] using And.intro hpop hflags
  case call =>
    have hlo := read_top hram hfetch
    have hpop := holds_read hram hfetch.pop (stackAddr (c.SP + 1))
    have hhi := read_top hram hpop
    have hpop2 := holds_read hram hpop.pop (stackAddr (c.SP + 1 + 1))
    have hPC := congrArg (· + 1#16) (congrArg₂ mkWord hlo hhi)
    simp only [mkWord_saved, BitVec.add_assoc before.PC] at hPC
    simpa [acExecute, armRTS, StackKind.pull, StackKind.size, Frame.Restored, setPC,
      stackAddr, hsp2] using And.intro hpop2 hPC
  case interrupt =>
    have htop := read_top hram hfetch
    have hpop := holds_read hram hfetch.pop (stackAddr (c.SP + 1))
    have hlo := read_top hram hpop
    have hpop2 := holds_read hram hpop.pop (stackAddr (c.SP + 1 + 1))
    have hhi := read_top hram hpop2
    have hpop3 := holds_read hram hpop2.pop (stackAddr (c.SP + 1 + 1 + 1))
    have hflags : SameFlags before.PS (.ofByte (bus.read (stackAddr (c.SP + 1))
        (bus.read c.PC s).2).1) := by
      rw [htop]
      exact (sameFlags_pulled before.PS).1
    have hPC := congrArg₂ mkWord hlo hhi
    rw [mkWord_saved, mkWord, BitVec.or_comm] at hPC
    simpa [acExecute, armRTI, StackKind.pull, StackKind.size, Frame.Restored, setPC, setPS,
      setSP, safeInc, stackAddr, STACK_ADDRESS, hsp2, hsp3]
      using And.intro hpop3 (And.intro hflags hPC)

/-- An instruction that neither uses the stack nor stores to page $01 keeps the stack. -/
theorem other_spec (hram : bus.RamOn stackPage cell) {x : Cpu × σ}
    (hop : ∀ o, Opcode.ofByte (nextOpcode bus x) = some o → o.usesStack = false)
    (hno : ∀ a ∈ stackPage, ∀ v,
      Access.write a v ∉ (((acStep order).run x.1).exec bus x.2).accesses) :
    (acIteration bus order x).1.SP = x.1.SP ∧
      ∀ i, stackCells cell (acIteration bus order x).2 i = stackCells cell x.2 i := by
  constructor
  · cases hcode : Opcode.ofByte (nextOpcode bus x) with
    | none =>
        have hcode' : Opcode.ofByte (bus.read x.1.PC x.2).1 = none := hcode
        simp [acIteration, acStep, hcode']
    | some o =>
        rw [acIteration, exec_acStep order hcode]
        exact (acExecute_plain order o (hop o hcode) _).2.exec bus _
  · intro i
    exact cell_exec_of_no_write hram (stackAddr_mem i) _ _ (hno _ (stackAddr_mem i))

/-! ### Well-nested stretches -/

/-- Over a well-nested stretch the stack pointer comes back to where it was, what was on
the stack stays there, and every pull restores what its push saved. -/
theorem nested_restores (hram : bus.RamOn stackPage cell) {room : ℕ} {x y : Cpu × σ}
    {frames : List Frame} (h : Nested bus order room x y frames) :
    ∀ xs, xs.length + room ≤ 256 → Holds (stackCells cell x.2) x.1.SP xs →
      y.1.SP = x.1.SP ∧ Holds (stackCells cell y.2) y.1.SP xs ∧
        ∀ f ∈ frames, f.Restored := by
  induction h with
  | nil room x =>
      intro xs _ hx
      exact ⟨rfl, hx, by simp⟩
  | @other room x y frames hop hno _ ih =>
      intro xs hroom hx
      obtain ⟨hsp, hcells⟩ := other_spec hram hop hno
      rw [← hsp] at hx ⊢
      exact ih xs hroom (hx.congr hcells)
  | @pair room x y z inner outer kind hpush hsize _ hpull _ ihinner ihouter =>
      intro xs hroom hx
      obtain ⟨hsp, hpushed⟩ := push_spec hram kind hpush (by omega) hx
      obtain ⟨hspy, hy, hframes⟩ := ihinner (kind.saved x.1 ++ xs)
        (by rw [List.length_append, StackKind.length_saved]; omega) hpushed
      obtain ⟨hspz, hpulled, hrestored⟩ := pull_spec hram kind hpull hy
      obtain ⟨hspout, hout, hframes'⟩ := ihouter xs hroom hpulled
      refine ⟨?_, hout, ?_⟩
      · rw [hspout, hspz, hspy, hsp, BitVec.sub_add_cancel]
      · intro f hf
        simp only [List.cons_append, List.mem_cons, List.mem_append] at hf
        rcases hf with rfl | hin | hin
        · exact hrestored
        · exact hframes f hin
        · exact hframes' f hin

end Step

/-- Page $01 of the machine is plain storage. -/
theorem bus_ramOn_stackPage : Machine.bus.RamOn stackPage Machine.ramCell :=
  bus_ramOn.mono fun address h => by
    have hhi : address.toNat ≤ 0x01FF := h.2
    change address.toNat < RAMSIZE
    rw [RAMSIZE]
    omega

/-- **Stack transparency.** Over a well-nested stretch of the guest program with at most
256 bytes on the stack, from any stack pointer, every pull gets back what its push saved
and the stack pointer ends at its starting value. -/
theorem stack_transparent (order : EvalOrder) {x y : Cpu × Machine} {frames : List Frame}
    (h : Nested Machine.bus order 256 x y frames) :
    y.1.SP = x.1.SP ∧ ∀ f ∈ frames, f.Restored := by
  obtain ⟨hsp, -, hframes⟩ :=
    nested_restores bus_ramOn_stackPage h [] (by simp) (.nil _ _)
  exact ⟨hsp, hframes⟩

/-- A subroutine at $0310 that pushes and pulls, called from $0300 with the stack pointer
at the lower end of page $01. -/
theorem stack_transparent_jsr_pha :
    let m : Machine := { Machine.initial with mem := { Machine.initial.mem with
      ram := fun i => match i.val with
        | 0x0300 => 0x20
        | 0x0301 => 0x10
        | 0x0302 => 0x03
        | 0x0310 => 0x48
        | 0x0311 => 0x68
        | 0x0312 => 0x60
        | _ => 0xEA } }
    let step := acIteration Machine.bus .leftFirst
    let x : Cpu × Machine := (⟨0x42, 0, 0, 0x00, 0x0300, .ofByte 0x30⟩, m)
    (step (step (step (step x)))).1.SP = x.1.SP ∧
      ∀ f ∈ [⟨.call, x.1, (step (step (step (step x)))).1⟩,
        ⟨.accumulator, (step x).1, (step (step (step x))).1⟩], Frame.Restored f := by
  intro m step x
  have hpha := @Nested.pair _ Machine.bus .leftFirst 254 (step x) (step (step x))
    (step (step (step x))) [] [] .accumulator (by decide) (by decide) (.nil _ _)
    (by decide) (.nil _ _)
  have hjsr := @Nested.pair _ Machine.bus .leftFirst 256 x (step (step (step x)))
    (step (step (step (step x)))) _ [] .call (by decide) (by decide) hpha
    (by decide) (.nil _ _)
  exact stack_transparent .leftFirst hjsr

end B2OS
