import B2OS.Apple2.Arms
import B2OS.Apple2.Refine
import Mathlib.Tactic.IntervalCases

/-!
# The Cycle Budget of the Instruction Loop

`ac_Run` is given a number of cycles and runs the guest program until they are used up.
Its loop is an instance of `Budget.loop`; what it returns, and whether it returns, is
expressed by the guest program running without a budget, and compared with the documented
cycle counts.

## Main results

* `acRun_eq_some_iff`: what `ac_Run` leaves.
* `acRun_terminates_iff`: `ac_Run` ends exactly on programs that are charged for as much
  as the budget.
* `cycleAccounting_never`: no documented opcode is charged its documented cycles.
* `cyclePtr_onBudget_iff`: the charges of an instruction are made to the budget variable
  unless it addresses memory by `(zp,X)`.
-/

universe u

namespace B2OS

open BusProg Budget

/-! ### The loop -/

section Loop

variable {σ : Type u} (bus : Bus WORD BYTE σ) (order : EvalOrder)

/-- The charges of an iteration are those of its opcode. -/
theorem acStep_notes (c : Cpu) (s : σ) :
    (((acStep order).run c).exec bus s).notes =
      (Opcode.ofByte (nextOpcode bus (c, s))).elim [] Opcode.charges := by
  simp only [acStep, StateT.run_bind, acFetch_run, read_bind, ret_bind, exec_read, nextOpcode]
  cases h : Opcode.ofByte (bus.read c.PC s).1 with
  | none => rfl
  | some o => exact (acExecute_emits order o _).exec_notes bus _

/-- An iteration takes the charge of its opcode from the budget variable. -/
theorem charged_acStep (c : Cpu) (s : σ) :
    charged (((acStep order).run c).exec bus s).notes = chargeOf (nextOpcode bus (c, s)) := by
  rw [acStep_notes, chargeOf]
  cases Opcode.ofByte (nextOpcode bus (c, s)) with
  | none => rfl
  | some o => exact o.charged_charges

theorem Opcode.charge_le (o : Opcode) : o.charge ≤ 5 := by
  cases o <;> decide

theorem chargeOf_le (inst : BYTE) : chargeOf inst ≤ 5 := by
  rw [chargeOf]
  cases Opcode.ofByte inst with
  | none => simp
  | some o => exact o.charge_le

/-- `ac_Run` is a loop on a budget. -/
theorem acRun_eq_loop (fuel : ℕ) (cycle : ULONG) (c : Cpu) (s : σ) :
    acRun bus order fuel cycle c s =
      loop (acIteration bus order) (fun x => chargeOf (nextOpcode bus x)) fuel cycle
        (c, s) := by
  induction fuel generalizing cycle c s with
  | zero => rfl
  | succ fuel ih =>
      rw [acRun, loop]
      simp only [charged_acStep, ih]
      rfl

/-- What `ac_Run` returns, in terms of the guest program running freely: the loop leaves
after the first number of iterations whose charges reach the budget. -/
theorem acRun_eq_some_iff (cycle : ULONG) (c : Cpu) (s : σ) (r : LoopExit 32 (Cpu × σ)) :
    (∃ fuel, acRun bus order fuel cycle c s = some r) ↔
      FirstReach (acIteration bus order) (fun x => chargeOf (nextOpcode bus x)) cycle.toNat
        (c, s) r.iterations ∧
      r.budget = cycle - BitVec.ofNat 32 (spent (acIteration bus order)
        (fun x => chargeOf (nextOpcode bus x)) (c, s) r.iterations) ∧
      r.state = (acIteration bus order)^[r.iterations] (c, s) := by
  simp only [acRun_eq_loop]
  exact loop_eq_some_iff fun x => by have := chargeOf_le (nextOpcode bus x); omega

/-- `ac_Run` ends exactly when the guest program, running freely, fetches opcodes whose
charges add up to the budget. -/
theorem acRun_terminates_iff (cycle : ULONG) (c : Cpu) (s : σ) :
    (∃ fuel r, acRun bus order fuel cycle c s = some r) ↔
      ∃ k, cycle.toNat ≤ ∑ i ∈ Finset.range k, chargeOf (opcodeAt bus order c s i) := by
  simp only [acRun_eq_loop]
  exact loop_terminates_iff fun x => by have := chargeOf_le (nextOpcode bus x); omega

end Loop

/-- `BCC *` with the carry clear: every iteration leads back to its own start and charges
nothing. -/
theorem acRun_diverges_bcc :
    let memory : WORD → BYTE := fun a => if a = 0x0300 then 0x90 else 0xFE
    let c : Cpu := ⟨0x00, 0x00, 0x00, 0xFF, 0x0300, .ofByte 0x30⟩
    ¬ ∃ fuel r, acRun Bus.flat .leftFirst fuel 5000 c memory = some r := by
  intro memory c
  have hbcc : Opcode.ofByte (Bus.flat.read c.PC memory).1 = some .BCC := by decide
  have hfix : acIteration Bus.flat .leftFirst (c, memory) = (c, memory) := by
    have hclear : (StatusFlags.ofByte 48#8).C = false := by decide
    rw [acIteration, exec_acStep .leftFirst hbcc]
    simp [acExecute, acExecuteBRANCH, setPC, Bus.flat, memory, c, hclear]
  have hfree : ∀ i, chargeOf (nextOpcode Bus.flat
      ((acIteration Bus.flat .leftFirst)^[i] (c, memory))) = 0 := by
    intro i
    rw [Function.iterate_fixed hfix]
    decide
  rintro ⟨fuel, r, h⟩
  have hreach := ((acRun_eq_some_iff Bus.flat .leftFirst _ _ _ r).mp ⟨fuel, h⟩).1.1
  simp [spent, hfree] at hreach

/-! ### The cycle pointer -/

/-- The charges of an opcode are made at the budget variable, except those of `(zp,X)`. -/
theorem Opcode.charges_onBudget_iff (o : Opcode) :
    (∀ e ∈ o.charges, e.ptr = 0) ↔ o.mode ≠ .indexedIndirect := by
  cases o <;> decide

/-- **Every update that an instruction makes through a cycle pointer is made to the budget
variable exactly when the instruction does not address memory by `(zp,X)`.** -/
theorem cyclePtr_onBudget_iff {σ : Type u} (bus : Bus WORD BYTE σ) (order : EvalOrder)
    (c : Cpu) (s : σ) :
    (∀ e ∈ (((acStep order).run c).exec bus s).notes, e.ptr = 0) ↔
      ∀ o, Opcode.ofByte (nextOpcode bus (c, s)) = some o → o.mode ≠ .indexedIndirect := by
  rw [acStep_notes]
  cases Opcode.ofByte (nextOpcode bus (c, s)) with
  | none => simp
  | some o => simpa using o.charges_onBudget_iff

/-- `LDA ($10,X)` takes its two cycles from the word below the budget variable. -/
theorem cyclePtr_leaves_budget :
    let memory : WORD → BYTE := fun a => if a = 0x0300 then 0xA1 else 0x10
    let c : Cpu := ⟨0x00, 0x00, 0x00, 0xFF, 0x0300, .ofByte 0x30⟩
    ¬ ∀ e ∈ (((acStep .leftFirst).run c).exec Bus.flat memory).notes, e.ptr = 0 := by
  intro memory c h
  have hlda : Opcode.ofByte (nextOpcode Bus.flat (c, memory)) = some .LDA_INDX :=
    Opcode.ofByte_code .LDA_INDX
  rw [acStep_notes, hlda] at h
  have hptr : (-1 : ℤ) = 0 := h ⟨-1, 2⟩ (List.mem_singleton_self _)
  omega

/-! ### Documented cycles -/

/-- A documented instruction pays at least the base count of its opcode. -/
theorem cycles_le_documented {σ : Type u} {bus : Bus WORD BYTE σ} {lowFirst : Bool}
    {x : Mos6502.State} {s : σ} {ins : Mos6502.Instr}
    (h : Mos6502.decode (bus.read x.pc s).1 = some ins) :
    ins.cycles ≤ (((Mos6502.step lowFirst).run x).exec bus s).notes.sum := by
  simp [Mos6502.step, h]

/-- No arm charges what its opcode is documented to take. -/
theorem chargeOf_lt_cycles {inst : BYTE} {ins : Mos6502.Instr}
    (h : Mos6502.decode inst = some ins) : chargeOf inst < ins.cycles := by
  have hall : ∀ o ∈ Opcode.all, ∀ row ∈ ByteTable.findKey Prod.fst o.code.toNat Mos6502.table,
      o.charge < row.2.cycles := by
    decide +kernel
  obtain ⟨o, ho, -, -⟩ := ofByte_of_decode h
  rw [Mos6502.decode, ← Opcode.code_of_ofByte ho, ByteTable.lookup_eq_findKey,
    Option.map_eq_some_iff] at h
  obtain ⟨row, hrow, rfl⟩ := h
  rw [chargeOf, ho]
  exact hall o o.mem_all row hrow

section Documented

variable {σ : Type u} (bus : Bus WORD BYTE σ) (order : EvalOrder)

/-- The cycles that the documented processor takes for the next instruction, page
crossings and taken branches included. -/
def documentedCycles (x : Cpu × σ) : ℕ :=
  (((Mos6502.step (order == .leftFirst)).run x.1.view).exec bus x.2).notes.sum

theorem chargeOf_lt_documented {x : Cpu × σ}
    (h : (Mos6502.decode (nextOpcode bus x)).isSome) :
    chargeOf (nextOpcode bus x) < documentedCycles bus order x := by
  obtain ⟨ins, hins⟩ := Option.isSome_iff_exists.mp h
  exact lt_of_lt_of_le (chargeOf_lt_cycles hins) (cycles_le_documented hins)

/-- `ac_Run(n)` executes the shortest instruction prefix whose documented cycles add up to
at least `n`, and returns `n` less their sum. -/
def RunsDocumented (n : ULONG) (c : Cpu) (s : σ) : Prop :=
  ∃ k, FirstReach (acIteration bus order) (documentedCycles bus order) n.toNat (c, s) k ∧
    ∃ fuel r, acRun bus order fuel n c s = some r ∧ r.iterations = k ∧
      r.state = (acIteration bus order)^[k] (c, s) ∧
      r.budget.toInt = n.toNat -
        spent (acIteration bus order) (documentedCycles bus order) (c, s) k

/-- The budget that `ac_Run` returns is the budget less the charges, at most four below
zero. -/
theorem acRun_returns {fuel : ℕ} {n : ULONG} {c : Cpu} {s : σ} {r : LoopExit 32 (Cpu × σ)}
    (h : acRun bus order fuel n c s = some r) :
    r.budget.toInt = n.toNat - spent (acIteration bus order)
      (fun x => chargeOf (nextOpcode bus x)) (c, s) r.iterations ∧
    -4 ≤ r.budget.toInt ∧ r.budget.toInt ≤ 0 := by
  obtain ⟨⟨hreach, hfirst⟩, hbudget, -⟩ := (acRun_eq_some_iff bus order n c s r).mp ⟨fuel, h⟩
  have hover : spent (acIteration bus order) (fun x => chargeOf (nextOpcode bus x)) (c, s)
      r.iterations ≤ n.toNat + 4 := by
    cases hk : r.iterations with
    | zero => simp
    | succ k =>
        have hlast := hfirst k (by omega)
        have hle := chargeOf_le (nextOpcode bus ((acIteration bus order)^[k] (c, s)))
        rw [spent_succ]
        omega
  obtain ⟨d, hd⟩ := Nat.exists_eq_add_of_le hreach
  have hd4 : d ≤ 4 := by omega
  have hvalue : r.budget.toInt = -d := by
    rw [hbudget, hd, BitVec.ofNat_add, BitVec.ofNat_toNat, BitVec.setWidth_eq]
    interval_cases d <;> simp
  rw [hvalue, hd]
  omega

/-- The cycle accounting holds on no input. Every documented opcode is charged less than
it takes; and on a guest program of documented opcodes `ac_Run(n)` runs the documented
prefix only when that is empty, for `n = 0`. -/
theorem cycleAccounting_never (c : Cpu) (s : σ) :
    ((Mos6502.decode (nextOpcode bus (c, s))).isSome →
      charged (((acStep order).run c).exec bus s).notes < documentedCycles bus order (c, s)) ∧
    ((∀ i, (Mos6502.decode (opcodeAt bus order c s i)).isSome) →
      ∀ n : ULONG, RunsDocumented bus order n c s ↔ n = 0) := by
  refine ⟨fun h => ?_, fun hdoc n => ⟨?_, ?_⟩⟩
  · rw [charged_acStep]
    exact chargeOf_lt_documented bus order h
  · rintro ⟨k, hdocumented, fuel, r, hrun, rfl, -, hreturn⟩
    by_contra hn
    have hpos : 0 < n.toNat := by
      rcases Nat.eq_zero_or_pos n.toNat with h | h
      · exact absurd (BitVec.eq_of_toNat_eq h) hn
      · exact h
    have hk : 0 < r.iterations := by
      rcases Nat.eq_zero_or_pos r.iterations with h | h
      · rw [h, firstReach_zero] at hdocumented
        omega
      · exact h
    -- The two prefixes are one prefix, which costs less than it is documented to.
    have hless : spent (acIteration bus order) (fun x => chargeOf (nextOpcode bus x)) (c, s)
        r.iterations < spent (acIteration bus order) (documentedCycles bus order) (c, s)
        r.iterations :=
      spent_lt_spent hk fun i _ => chargeOf_lt_documented bus order (hdoc i)
    have hcharged := (acRun_returns bus order hrun).1
    omega
  · rintro rfl
    exact ⟨0, firstReach_zero.mpr rfl, 1, ⟨0, 0, c, s⟩, rfl, rfl, rfl, rfl⟩

end Documented

/-- `JMP *` takes three cycles and is charged two. -/
theorem cycleAccounting_never_jmp :
    let memory : WORD → BYTE := fun a =>
      if a = 0x0300 then 0x4C else if a = 0x0301 then 0x00 else 0x03
    let c : Cpu := ⟨0x00, 0x00, 0x00, 0xFF, 0x0300, .ofByte 0x30⟩
    charged (((acStep .leftFirst).run c).exec Bus.flat memory).notes <
        documentedCycles Bus.flat .leftFirst (c, memory) ∧
      ∀ n : ULONG, RunsDocumented Bus.flat .leftFirst n c memory ↔ n = 0 := by
  intro memory c
  have hjmp : Opcode.ofByte (Bus.flat.read c.PC memory).1 = some .JMP_ABS := by
    decide
  have hfix : acIteration Bus.flat .leftFirst (c, memory) = (c, memory) := by
    rw [acIteration, exec_acStep .leftFirst hjmp]
    simp [acExecute, acAddrModeABS, setPC, Bus.flat, memory, c, mkWord]
  have hdoc : ∀ i, (Mos6502.decode (opcodeAt Bus.flat .leftFirst c memory i)).isSome := by
    intro i
    rw [opcodeAt, Function.iterate_fixed hfix]
    decide
  have haccounting := cycleAccounting_never Bus.flat .leftFirst c memory
  exact ⟨haccounting.1 (hdoc 0), haccounting.2 hdoc⟩

/-- `LDA #$00` takes two cycles and is charged none. -/
theorem acStep_charges_lda_im :
    let memory : WORD → BYTE := fun a => if a = 0x0300 then 0xA9 else 0x00
    let c : Cpu := ⟨0x00, 0x00, 0x00, 0xFF, 0x0300, .ofByte 0x30⟩
    ¬ charged (((acStep .leftFirst).run c).exec Bus.flat memory).notes =
      documentedCycles Bus.flat .leftFirst (c, memory) := by
  decide

end B2OS
