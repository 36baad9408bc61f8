import B2OS.Apple2.CycleCharge
import B2OS.Apple2.UnusedFlag

/-!
# Guest Programs on the Documented 6502

`ac_Run` executes a guest program instruction by instruction. This module compares whole runs
with the documented processor: both are programs over the memory bus, `acSteps` and
`Mos6502.steps`, and match as long as the documented processor meets nothing that the emulator
does in another way. `Followed` says what that is, on the side of the processor: an opcode of
the matrix, decimal mode off, no pointer that starts at the last byte of a page, and no `RTI`
to a status byte without its unused bit.

## Main results

* `acSteps_matches`: a followed run of the processor is matched by the emulator, access by
  access.
* `acRun_follows_mos6502`: so it is for `ac_Run`, whatever its budget.
-/

universe u

namespace B2OS

open BusProg
open Mos6502 (MosM)

/-! ### Runs of the documented processor -/

namespace Mos6502

/-- `n` instructions of the documented processor. -/
def steps (lowFirst : Bool) : ℕ → MosM Unit
  | 0 => pure ()
  | n + 1 => do
      let _ ← step lowFirst
      steps lowFirst n

section Run

variable {σ : Type u} (bus : Bus WORD BYTE σ)

/-- One instruction, on the registers and the bus. -/
def iteration (lowFirst : Bool) (x : State × σ) : State × σ :=
  let o := ((step lowFirst).run x.1).exec bus x.2
  (o.val.2, o.state)

/-- The next instruction is one that the emulator follows. -/
structure Followed (x : State × σ) : Prop where
  binary : x.1.d = false
  documented : (decode (bus.read x.1.pc x.2).1).isSome
  pointer : ∀ ins, decode (bus.read x.1.pc x.2).1 = some ins →
    let operand := (bus.read (x.1.pc + 1) (bus.read x.1.pc x.2).2).1
    match ins.mode with
    | .indexedIndirect => operand + x.1.x ≠ 0xFF
    | .indirectIndexed | .indirect => operand ≠ 0xFF
    | _ => True
  status : ∀ ins, decode (bus.read x.1.pc x.2).1 = some ins → ins.mnemonic = .RTI →
    (bus.read (stack (x.1.sp + 1)) (bus.read x.1.pc x.2).2).1.getLsbD 5 = true

end Run

end Mos6502

/-! ### Runs of the emulator -/

/-- `n` iterations of the loop of `ac_Run`. -/
def acSteps (order : EvalOrder) : ℕ → AcM Unit
  | 0 => pure ()
  | n + 1 => do
      acStep order
      acSteps order n

section Run

variable {σ : Type u} {bus : Bus WORD BYTE σ} {order : EvalOrder} {c : Cpu} {s : σ}

/-- The iterations of the loop, with what they do to the bus. -/
theorem acSteps_exec (n : ℕ) (c : Cpu) (s : σ) :
    (((((acSteps order n).run c).exec bus s).val.2, (((acSteps order n).run c).exec bus s).state) :
      Cpu × σ) = (acIteration bus order)^[n] (c, s) := by
  induction n generalizing c s with
  | zero => rfl
  | succ n ih =>
      rw [acSteps, StateT.run_bind, exec_bind, Function.iterate_succ_apply]
      exact ih _ _

theorem Mos6502.steps_exec {lowFirst : Bool} (n : ℕ) (x : Mos6502.State) (s : σ) :
    (((((Mos6502.steps lowFirst n).run x).exec bus s).val.2,
      (((Mos6502.steps lowFirst n).run x).exec bus s).state) : Mos6502.State × σ) =
        (Mos6502.iteration bus lowFirst)^[n] (x, s) := by
  induction n generalizing x s with
  | zero => rfl
  | succ n ih =>
      rw [Mos6502.steps, StateT.run_bind, exec_bind, Function.iterate_succ_apply]
      exact ih _ _

/-! ### One instruction -/

theorem Mos6502.Followed.pointerInPage {ins : Mos6502.Instr}
    (h : Mos6502.Followed bus (c.view, s)) (hins : Mos6502.decode (bus.read c.PC s).1 = some ins) :
    PointerInPage bus ins.mode { c with PC := c.PC + 1 } (bus.read c.PC s).2 := by
  have hpointer := h.pointer ins hins
  revert hpointer
  unfold PointerInPage
  cases ins.mode <;> exact id

/-- A followed instruction is matched by an iteration of the loop. -/
theorem acStep_matches (h : Mos6502.Followed bus (c.view, s)) (hU : c.PS.Unused = true) :
    Matches bus (fun r r' => r'.2 = r.2.view) ((acStep order).run c)
      ((Mos6502.step (order == .leftFirst)).run c.view) s := by
  obtain ⟨ins, hins⟩ : ∃ ins, Mos6502.decode (bus.read c.PC s).1 = some ins :=
    Option.isSome_iff_exists.mp h.documented
  obtain ⟨o, ho, hmnemonic, hmode⟩ := ofByte_of_decode hins
  have hpointer := h.pointerInPage hins
  rw [hmode] at hpointer
  have harm : Matches bus _ ((acExecute order o).run { c with PC := c.PC + 1 }) _ _ :=
    acExecute_refines order o h.binary hU hpointer
  have hpc : c.view.pc = c.PC := rfl
  simp only [acStep, Mos6502.step, StateT.run_bind, acFetch_run, Mos6502.fetch_run, hpc,
    read_bind, ret_bind, matches_read, ho, hins, Mos6502.tick_run, note_bind, matches_note_right]
  rw [hmnemonic, hmode, ← bind_ret ((acExecute order o).run _)]
  exact harm.bind fun _ _ _ hr => (matches_ret _ _).mpr hr.1

/-- A followed instruction keeps the unused bit. -/
theorem Mos6502.Followed.keepsUnused (h : Mos6502.Followed bus (c.view, s)) :
    KeepsUnused bus (c, s) := by
  intro hrti
  obtain ⟨ins, hins⟩ : ∃ ins, Mos6502.decode (bus.read c.PC s).1 = some ins :=
    Option.isSome_iff_exists.mp h.documented
  obtain ⟨o, ho, hmnemonic, -⟩ := ofByte_of_decode hins
  have hrti' : some o = some Opcode.RTI := ho.symm.trans hrti
  have hstatus := h.status ins hins (by rw [hmnemonic, Option.some.inj hrti']; rfl)
  rwa [Mos6502.stack_eq] at hstatus

/-! ### Runs -/

/-- **A run that the emulator follows is matched by it**: the same accesses in the same order,
the same registers and the same bus. -/
theorem acSteps_matches (n : ℕ) {c : Cpu} {s : σ} (hU : c.PS.Unused = true)
    (h : ∀ i < n, Mos6502.Followed bus
      ((Mos6502.iteration bus (order == .leftFirst))^[i] (c.view, s))) :
    Matches bus (fun r r' => r'.2 = r.2.view ∧ r.2.PS.Unused = true) ((acSteps order n).run c)
      ((Mos6502.steps (order == .leftFirst) n).run c.view) s := by
  induction n generalizing c s with
  | zero => exact (matches_ret _ _).mpr ⟨rfl, hU⟩
  | succ n ih =>
      have hfirst : Mos6502.Followed bus (c.view, s) := h 0 (Nat.succ_pos n)
      have hstep : Matches bus _ ((acStep order).run c) _ s := acStep_matches hfirst hU
      have hunused : (acIteration bus order (c, s)).1.PS.Unused = true :=
        (acIteration_unused_iff hU).mpr hfirst.keepsUnused
      -- Both have come to the same place, so that the rest is followed from there.
      have hnext : Mos6502.iteration bus (order == .leftFirst) (c.view, s) =
          ((acIteration bus order (c, s)).1.view, (acIteration bus order (c, s)).2) :=
        Prod.ext hstep.val hstep.state.symm
      have hrest := ih hunused fun i hi => by
        rw [← hnext, ← Function.iterate_succ_apply]
        exact h (i + 1) (Nat.succ_lt_succ hi)
      rw [acSteps, Mos6502.steps, StateT.run_bind, StateT.run_bind]
      refine hstep.bind_at ?_
      rwa [hstep.val]

/-- **`ac_Run` runs the guest as the documented processor does.** Whatever its budget and
whatever is behind the bus, a call that returns has executed some number of instructions; when
the documented processor, started on the same registers, meets only what is `Followed` in that
many instructions, it makes the same accesses in the same order and comes to the same registers
and the same memory. -/
theorem acRun_follows_mos6502 (bus : Bus WORD BYTE σ) (order : EvalOrder) (fuel : ℕ)
    (cycle : ULONG) (c : Cpu) (s : σ) (r : LoopExit 32 (Cpu × σ))
    (hrun : acRun bus order fuel cycle c s = some r) (hU : c.PS.Unused = true)
    (h : ∀ i < r.iterations, Mos6502.Followed bus
      ((Mos6502.iteration bus (order == .leftFirst))^[i] (c.view, s))) :
    let o := ((acSteps order r.iterations).run c).exec bus s
    let d := ((Mos6502.steps (order == .leftFirst) r.iterations).run c.view).exec bus s
    r.state = (o.val.2, o.state) ∧ d.val.2 = r.state.1.view ∧ d.state = r.state.2 ∧
      d.accesses = o.accesses ∧ r.state.1.PS.Unused = true := by
  intro o d
  have hmatches := acSteps_matches r.iterations hU h
  have hstate : r.state = (o.val.2, o.state) := by
    rw [acSteps_exec r.iterations c s]
    exact ((acRun_eq_some_iff bus order cycle c s r).mp ⟨fuel, hrun⟩).2.2
  rw [hstate]
  exact ⟨rfl, hmatches.val.1, hmatches.state.symm, hmatches.accesses.symm, hmatches.val.2⟩

end Run

/-- `JMP *` on a budget of two cycles. -/
theorem acRun_follows_jmp :
    let memory : WORD → BYTE := fun a =>
      if a = 0x0300 then 0x4C else if a = 0x0301 then 0x00 else 0x03
    let c : Cpu := ⟨0x01, 0x00, 0x20, 0xFF, 0x0300, .ofByte 0x30⟩
    let o := ((acSteps .leftFirst 1).run c).exec Bus.flat memory
    let d := ((Mos6502.steps true 1).run c.view).exec Bus.flat memory
    ((c, memory) : Cpu × (WORD → BYTE)) = (o.val.2, o.state) ∧ d.val.2 = c.view ∧
      d.state = memory ∧ d.accesses = o.accesses ∧ c.PS.Unused = true := by
  intro memory c
  have hjmp : Opcode.ofByte (Bus.flat.read c.PC memory).1 = some .JMP_ABS := by
    decide
  have hfix : acIteration Bus.flat .leftFirst (c, memory) = (c, memory) := by
    rw [acIteration, exec_acStep .leftFirst hjmp]
    simp [acExecute, acAddrModeABS, setPC, Bus.flat, memory, c, mkWord]
  have hcharge : chargeOf (nextOpcode Bus.flat (c, memory)) = 2 := by
    decide
  have hrun : acRun Bus.flat .leftFirst 2 2 c memory = some ⟨1, 0, c, memory⟩ := by
    rw [acRun_eq_loop]
    simp only [Budget.loop, hfix, hcharge]
    rfl
  refine acRun_follows_mos6502 Bus.flat .leftFirst 2 2 c memory ⟨1, 0, c, memory⟩ hrun rfl ?_
  intro i hi
  obtain rfl : i = 0 := Nat.lt_one_iff.mp hi
  refine ⟨rfl, rfl, fun ins hins => ?_, fun ins hins hrti => ?_⟩
  · obtain rfl : Mos6502.Instr.mk .JMP .absolute 3 = ins := Option.some.inj hins
    exact trivial
  · obtain rfl : Mos6502.Instr.mk .JMP .absolute 3 = ins := Option.some.inj hins
    cases hrti

end B2OS
