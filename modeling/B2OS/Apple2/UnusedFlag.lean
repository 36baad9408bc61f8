import B2OS.Apple2.Arms
import B2OS.Apple2.Machine

/-!
# The Unused Bit of the Status Register

Bit 5 of the status register has no flag, and reads as one on the 6502. `ac_Reboot` sets the
bit, and every instruction but the two that pull the whole register leaves it alone. `PLP` sets
it in the byte that it pulls; `RTI` takes the byte as it finds it on the stack.

## Main results

* `acIteration_unused_iff`: an instruction keeps the bit set exactly when it is no `RTI` that
  pulls a byte without it.
* `pushedStatus_eq`: what `PHP` and `BRK` push is the status register with the break bit.
* `unused_of_run_iff`: a run from `machine_Reset` keeps the bit set, and pushes it, exactly when
  every `RTI` on the way pulls a byte that has it.
-/

universe u

namespace B2OS

open BusProg

/-! ### The arms -/

/-- An arm that does not pull the status register leaves the unused bit alone. -/
theorem acExecute_unused (order : EvalOrder) {o : Opcode} (hPLP : o ≠ .PLP) (hRTI : o ≠ .RTI)
    (c : Cpu) : ((acExecute order o).run c).Always fun r => r.2.PS.Unused = c.PS.Unused := by
  by_cases h : o.usesStack = false
  · exact (acExecute_steady order o h c).2.mono fun _ hr => hr.2
  cases o <;> simp only [Opcode.usesStack, Bool.true_eq_false, not_true, not_false_eq_true] at h
  case PLP => exact absurd rfl hPLP
  case RTI => exact absurd rfl hRTI
  case PHA | PLA | PHP | JSR | RTS | TXS =>
    simp [acExecute, armPHP, armJSR, armRTS, setA, setPC, setSP]
  case BRK =>
    cases order <;> simp [acExecute, armBRK, readVector, setPC, setSP, setPS]

/-- `PLP` sets the bit in the byte that it pulls. -/
theorem armPLP_unused (c : Cpu) : (armPLP.run c).Always fun r => r.2.PS.Unused = true := by
  simp [armPLP, setPS, StatusFlags.ofByte, FLAG_UNUSED]

section Iteration

variable {σ : Type u} (bus : Bus WORD BYTE σ) (order : EvalOrder)

/-- The byte at the top of the stack when the next opcode has been fetched. -/
def topOfStack (x : Cpu × σ) : BYTE :=
  (bus.read (STACK_ADDRESS + (x.1.SP + 1).setWidth 16) (bus.read x.1.PC x.2).2).1

/-- The next instruction is no `RTI` that pulls a byte without the unused bit. -/
def KeepsUnused (x : Cpu × σ) : Prop :=
  Opcode.ofByte (nextOpcode bus x) = some .RTI → (topOfStack bus x).getLsbD 5 = true

/-- The status bytes that the next instruction pushes: what `PHP` writes, and what `BRK` writes
after the two bytes of the program counter. -/
def pushedStatus (x : Cpu × σ) : List BYTE :=
  let written := (((acStep order).run x.1).exec bus x.2).accesses.filterMap fun
    | .read _ _ => none
    | .write _ v => some v
  match Opcode.ofByte (nextOpcode bus x) with
  | some .PHP => written
  | some .BRK => written.drop 2
  | _ => []

variable {bus order}

/-- `RTI` takes the unused bit from the byte that it pulls. -/
theorem acIteration_rti {x : Cpu × σ} (h : Opcode.ofByte (nextOpcode bus x) = some .RTI) :
    (acIteration bus order x).1.PS.Unused = (topOfStack bus x).getLsbD 5 := by
  rw [acIteration, exec_acStep order h]
  simp [acExecute, armRTI, setSP, setPS, setPC, safeInc, topOfStack, STACK_ADDRESS,
    StatusFlags.ofByte]

/-- Every other instruction keeps the bit set. -/
theorem acIteration_unused {x : Cpu × σ} (h : Opcode.ofByte (nextOpcode bus x) ≠ some .RTI)
    (hx : x.1.PS.Unused = true) : (acIteration bus order x).1.PS.Unused = true := by
  cases hcode : Opcode.ofByte (nextOpcode bus x) with
  | none =>
      have hcode' : Opcode.ofByte (bus.read x.1.PC x.2).1 = none := hcode
      simp [acIteration, acStep, hcode', hx]
  | some o =>
      rw [acIteration, exec_acStep order hcode]
      by_cases hPLP : o = .PLP
      · rw [hPLP]
        exact (armPLP_unused _).exec bus _
      · have hRTI : o ≠ .RTI := fun hRTI => h (hcode.trans (congrArg some hRTI))
        exact ((acExecute_unused order hPLP hRTI _).exec bus _).trans hx

/-- An instruction keeps the bit set exactly when it meets `KeepsUnused`. -/
theorem acIteration_unused_iff {x : Cpu × σ} (hx : x.1.PS.Unused = true) :
    (acIteration bus order x).1.PS.Unused = true ↔ KeepsUnused bus x := by
  by_cases h : Opcode.ofByte (nextOpcode bus x) = some .RTI
  · rw [acIteration_rti h, KeepsUnused, forall_prop_of_true h]
  · exact iff_of_true (acIteration_unused h hx) fun hRTI => absurd hRTI h

/-- What is pushed is the status register with the break bit. -/
theorem pushedStatus_eq {x : Cpu × σ} {v : BYTE} (hv : v ∈ pushedStatus bus order x) :
    v = { x.1.PS with B := true }.toByte := by
  rw [← StatusFlags.toByte_or_break]
  rw [pushedStatus] at hv
  cases hcode : Opcode.ofByte (nextOpcode bus x) with
  | none => simp [hcode] at hv
  | some o =>
      rw [exec_acStep order hcode] at hv
      cases o
      case PHP => simpa [hcode, acExecute, armPHP] using hv
      case BRK =>
        cases order <;>
          simpa [hcode, acExecute, armBRK, readVector, setPC, setSP, setPS] using hv
      all_goals simp [hcode] at hv

/-- With the bit set, what is pushed has bits 4 and 5 set. -/
theorem pushedStatus_bits {x : Cpu × σ} (hx : x.1.PS.Unused = true) {v : BYTE}
    (hv : v ∈ pushedStatus bus order x) : v.getLsbD 4 = true ∧ v.getLsbD 5 = true := by
  have hflags : StatusFlags.ofByte v = { x.1.PS with B := true } := by
    rw [pushedStatus_eq hv, StatusFlags.ofByte_toByte]
  exact ⟨congrArg StatusFlags.B hflags, (congrArg StatusFlags.Unused hflags).trans hx⟩

end Iteration

/-! ### Runs from a reset -/

namespace Machine

/-- `ac_Reset` leaves the unused bit alone. -/
theorem acReset_unused (c : Cpu) :
    (acReset.run c).Always fun r => r.2.PS.Unused = c.PS.Unused := by
  have hbit : c.PS.toByte.getLsbD 5 = c.PS.Unused :=
    congrArg StatusFlags.Unused c.PS.ofByte_toByte
  simp [acReset, setPC, StatusFlags.ofByte, FLAG_INTERRUPT_DISABLE, FLAG_DECIMAL_MODE, ← hbit]

/-- `machine_Reset` sets the unused bit. -/
theorem machineReset_unused (images : Images) (x : Cpu × Machine) :
    (machineReset images x).1.PS.Unused = true :=
  (acReset_unused _).exec bus _

end Machine

open Machine

/-- **From `machine_Reset` on, the unused bit is set in every state of a guest run, and in every
status byte that it pushes, exactly when every `RTI` of the run pulls a byte that has the bit
set.** -/
theorem unused_of_run_iff (order : EvalOrder) (images : Images) (x : Cpu × Machine) (k : ℕ) :
    let y := fun j => (acIteration bus order)^[j] (machineReset images x)
    (∀ j ≤ k, (y j).1.PS.Unused = true ∧
        ∀ v ∈ pushedStatus bus order (y j), v.getLsbD 4 = true ∧ v.getLsbD 5 = true) ↔
      ∀ j < k, KeepsUnused bus (y j) := by
  intro y
  have hnext : ∀ j, y (j + 1) = acIteration bus order (y j) :=
    fun j => Function.iterate_succ_apply' _ _ _
  constructor
  · intro h j hj
    rw [← acIteration_unused_iff (h j hj.le).1, ← hnext]
    exact (h (j + 1) hj).1
  · intro h
    have hset : ∀ j ≤ k, (y j).1.PS.Unused = true := by
      intro j hj
      induction j with
      | zero => exact machineReset_unused images x
      | succ j ih =>
          rw [hnext, acIteration_unused_iff (ih (by omega))]
          exact h j hj
    exact fun j hj => ⟨hset j hj, fun v hv => pushedStatus_bits (hset j hj) hv⟩

/-- A ROM that starts at $D000 with `RTI`. -/
def rtiRom : Images where
  appleIIrom := fun i => if i.val = 0 then 0x40 else if i.val = 0x2FFD then 0xD0 else 0
  diskII := fun _ => 0
  rawData := fun _ => 0

/-- `RTI` at the start of a program pulls a zero from the empty stack, and clears the bit. -/
theorem rti_clears_unused :
    ¬ ∀ j, ((acIteration bus .leftFirst)^[j]
      (machineReset rtiRom (.initial, .initial))).1.PS.Unused = true := by
  intro h
  have hopcode : nextOpcode bus (machineReset rtiRom (.initial, .initial)) = 0x40 := by
    decide
  have htop : (topOfStack bus (machineReset rtiRom (.initial, .initial))).getLsbD 5 = false := by
    decide
  have hrti : Opcode.ofByte (nextOpcode bus (machineReset rtiRom (.initial, .initial))) =
      some .RTI := hopcode ▸ Opcode.ofByte_code .RTI
  have hset := h 1
  rw [Function.iterate_one, acIteration_rti hrti, htop] at hset
  cases hset

end B2OS
