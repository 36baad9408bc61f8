import B2OS.Apple2.Session

/-!
# The Catch-Up Loop of the Disk

`machine_Run` lets the guest run once and then, while the motor of the selected drive turns, again
and again for 5000 cycles. The guest can stop the motor, start it or select the other drive inside
any of these calls. What ends the loop whatever the guest does is the byte `updatedrive`: the loop
counts it up before every call, no access of the guest changes it, and the loop is left when it
comes round to zero.

`DiskLoop` is the loop over any guest, as the calls it makes; `AcRuns` is the guest that `ac_Run`
runs. A guest that does not return holds up the loop, so that `Called` says which calls there are.

## Main results

* `acRuns_updatedrive`: the guest leaves the counter alone.
* `DiskLoop.calls_le`, `diskLoop_ends`: over a guest that leaves the counter alone the loop makes
  at most `255 - updatedrive` calls, and it ends when each of them returns.
* `machineRun_ends`: so it is for `machine_Run`.
-/

namespace B2OS

open Machine

/-! ### The loop over any guest -/

section Loop

variable (Run : Cpu × Machine → Cpu × Machine → Prop)

/-- The loop of `machine_Run` from `x`: it calls the guest `n` times and leaves the state `z`. -/
inductive DiskLoop : Cpu × Machine → ℕ → Cpu × Machine → Prop
  | stop {x : Cpu × Machine} :
      (updateFloppyDisk x).1 = false → DiskLoop x 0 (updateFloppyDisk x).2
  | again {x y z : Cpu × Machine} {n : ℕ} :
      (updateFloppyDisk x).1 = true → Run (updateFloppyDisk x).2 y → DiskLoop y n z →
        DiskLoop x (n + 1) z

/-- The states in which the loop from `x` calls the guest. -/
inductive Called (x : Cpu × Machine) : Cpu × Machine → Prop
  | first : (updateFloppyDisk x).1 = true → Called x (updateFloppyDisk x).2
  | next {s y : Cpu × Machine} :
      Called x s → Run s y → (updateFloppyDisk y).1 = true → Called x (updateFloppyDisk y).2

/-- The guest leaves the counter of the loop alone. -/
def KeepsUpdatedrive : Prop :=
  ∀ x y, Run x y → y.2.device.updatedrive = x.2.device.updatedrive

variable {Run}

/-- When the loop goes on, the counter has been counted up and has not come round. -/
theorem updateFloppyDisk_again {x : Cpu × Machine} (h : (updateFloppyDisk x).1 = true) :
    (updateFloppyDisk x).2.2.device.updatedrive.toNat = x.2.device.updatedrive.toNat + 1 := by
  simp only [updateFloppyDisk, Device.adUpdateFloppyDisk] at h ⊢
  split_ifs at h ⊢
  have hne : x.2.device.updatedrive + 1 ≠ 0 := by simpa using h
  change (x.2.device.updatedrive + 1).toNat = _
  bv_omega

/-- The calls of a run of the loop are bounded by what is left of the counter. -/
theorem DiskLoop.calls_le (hkeeps : KeepsUpdatedrive Run) {x z : Cpu × Machine} {n : ℕ}
    (h : DiskLoop Run x n z) : n ≤ 255 - x.2.device.updatedrive.toNat := by
  induction h with
  | stop _ => exact Nat.zero_le _
  | @again x y z n hagain hrun _ ih =>
      rw [hkeeps _ _ hrun, updateFloppyDisk_again hagain] at ih
      have hlt := (updateFloppyDisk x).2.2.device.updatedrive.isLt
      rw [updateFloppyDisk_again hagain] at hlt
      omega

theorem Called.tail {x s y : Cpu × Machine} (hagain : (updateFloppyDisk x).1 = true)
    (hrun : Run (updateFloppyDisk x).2 y) (h : Called Run y s) : Called Run x s := by
  induction h with
  | first hy => exact .next (.first hagain) hrun hy
  | next _ hr hy ih => exact .next ih hr hy

/-- The loop ends when each call that it makes returns. -/
theorem diskLoop_ends (hkeeps : KeepsUpdatedrive Run) {x : Cpu × Machine}
    (hcalls : ∀ s, Called Run x s → ∃ y, Run s y) : ∃ n z, DiskLoop Run x n z := by
  -- The counter only goes up, so the induction is on what is left of it.
  induction hleft : 255 - x.2.device.updatedrive.toNat using Nat.strong_induction_on
    generalizing x with
  | _ left ih =>
      cases hagain : (updateFloppyDisk x).1 with
      | false => exact ⟨0, _, .stop hagain⟩
      | true =>
          obtain ⟨y, hrun⟩ := hcalls _ (.first hagain)
          have hcount := updateFloppyDisk_again hagain
          have hlt := (updateFloppyDisk x).2.2.device.updatedrive.isLt
          obtain ⟨n, z, hloop⟩ := ih (255 - y.2.device.updatedrive.toNat)
            (by rw [hkeeps _ _ hrun]; omega) (fun s hs => hcalls s (hs.tail hagain hrun)) rfl
          exact ⟨n + 1, z, .again hagain hrun hloop⟩

end Loop

/-! ### The guest -/

theorem switch_updatedrive (m : Machine) (address : WORD) (value : BYTE) (WRT : Bool)
    (sw : SoftSwitch) :
    (m.switch address value WRT sw).2.device.updatedrive = m.device.updatedrive := by
  cases sw with
  | moveHead =>
      simp only [Machine.switch, Machine.setDevice, Device.adStepMotor]
      split_ifs <;> rfl
  | shiftLatch =>
      simp only [Machine.switch, Machine.setDevice, Device.shiftLatch]
      split_ifs <;> rfl
  | paddle pdl =>
      simp only [Machine.switch, Device.adReadPaddle]
      split_ifs <;> rfl
  | _ => rfl

/-- No access changes the counter. -/
theorem access_updatedrive (m : Machine) (a : MemAccess) :
    (m.access a).device.updatedrive = m.device.updatedrive :=
  Machine.access_device_inv (I := fun d => d.updatedrive = m.device.updatedrive) rfl
    fun value WRT sw _ => switch_updatedrive m a.address value WRT sw

theorem acIteration_updatedrive (order : EvalOrder) (x : Cpu × Machine) :
    (acIteration bus order x).2.device.updatedrive = x.2.device.updatedrive :=
  BusProg.exec_inv (I := fun m : Machine => m.device.updatedrive = x.2.device.updatedrive)
    (fun a m hm => (access_updatedrive m (.read a)).trans hm)
    (fun a b m hm => (access_updatedrive m (.write a b)).trans hm) _ rfl

/-- A call of `ac_Run` in the state `x` returns in the state `y`. -/
def AcRuns (order : EvalOrder) (cycle : ULONG) (x y : Cpu × Machine) : Prop :=
  ∃ fuel r, acRun bus order fuel cycle x.1 x.2 = some r ∧ r.state = y

/-- The guest leaves the counter of the loop alone. -/
theorem acRuns_updatedrive (order : EvalOrder) (cycle : ULONG) :
    KeepsUpdatedrive (AcRuns order cycle) := by
  rintro x y ⟨fuel, r, hr, rfl⟩
  rw [((acRun_eq_some_iff bus order cycle x.1 x.2 r).mp ⟨fuel, hr⟩).2.2]
  induction r.iterations with
  | zero => rfl
  | succ n ih => rw [Function.iterate_succ_apply', acIteration_updatedrive, ih]

/-! ### A guest that only spins -/

/-- `JMP *` at $0300. -/
def spinRam : Fin RAMSIZE → BYTE := fun i =>
  if i.val = 0x0300 then 0x4C else if i.val = 0x0302 then 0x03 else 0x00

def spinCpu : Cpu := ⟨0x00, 0x00, 0x00, 0xFF, 0x0300, .ofByte 0x30⟩

theorem acIteration_spin {m : Machine} (h : m.mem.ram = spinRam) :
    acIteration bus .leftFirst (spinCpu, m) = (spinCpu, m) := by
  have h0 : m.memReadByte 768#16 = (0x4C, m) := by
    simp [Machine.memReadByte, h, spinRam, RAMSIZE]
  have h1 : m.memReadByte 769#16 = (0x00, m) := by
    simp [Machine.memReadByte, h, spinRam, RAMSIZE]
  have h2 : m.memReadByte 770#16 = (0x03, m) := by
    simp [Machine.memReadByte, h, spinRam, RAMSIZE]
  have hjmp : Opcode.ofByte (bus.read spinCpu.PC m).1 = some .JMP_ABS := by
    rw [show bus.read spinCpu.PC m = (0x4C, m) from h0]
    rfl
  rw [acIteration, exec_acStep .leftFirst hjmp]
  simp [acExecute, acAddrModeABS, setPC, bus, spinCpu, h0, h1, h2, mkWord]

theorem nextOpcode_spin {m : Machine} (h : m.mem.ram = spinRam) :
    chargeOf (nextOpcode bus (spinCpu, m)) = 2 := by
  have hread : (bus.read spinCpu.PC m).1 = 0x4C := by
    simp [bus, spinCpu, Machine.memReadByte, h, spinRam, RAMSIZE]
  rw [nextOpcode, hread]
  rfl

/-- Its calls return, and where they were made. -/
theorem acRuns_spin (cycle : ULONG) {m : Machine} (h : m.mem.ram = spinRam)
    {y : Cpu × Machine} : AcRuns .leftFirst cycle (spinCpu, m) y ↔ y = (spinCpu, m) := by
  have hstay : ∀ {fuel r}, acRun bus .leftFirst fuel cycle spinCpu m = some r →
      r.state = (spinCpu, m) := fun {fuel r} hr => by
    rw [((acRun_eq_some_iff bus .leftFirst cycle spinCpu m r).mp ⟨fuel, hr⟩).2.2,
      Function.iterate_fixed (acIteration_spin h)]
  constructor
  · rintro ⟨fuel, r, hr, rfl⟩
    exact hstay hr
  · rintro rfl
    have hcharge : ∀ i, chargeOf (opcodeAt bus .leftFirst spinCpu m i) = 2 := fun i => by
      rw [opcodeAt, Function.iterate_fixed (acIteration_spin h), nextOpcode_spin h]
    obtain ⟨fuel, r, hr⟩ := (acRun_terminates_iff bus .leftFirst cycle spinCpu m).mpr
      ⟨cycle.toNat, by simpa [hcharge] using Nat.le_mul_of_pos_right cycle.toNat Nat.two_pos⟩
    exact ⟨fuel, r, hr, hstay hr⟩

theorem called_spin {m : Machine} (h : m.mem.ram = spinRam) {s : Cpu × Machine}
    (hs : Called (AcRuns .leftFirst 5000) (spinCpu, m) s) :
    s.1 = spinCpu ∧ s.2.mem.ram = spinRam := by
  induction hs with
  | first _ => exact ⟨rfl, h⟩
  | @next s y _ hrun _ ih =>
      obtain ⟨c, m'⟩ := s
      obtain ⟨rfl, hram⟩ := ih
      rw [acRuns_spin 5000 hram] at hrun
      subst hrun
      exact ⟨rfl, hram⟩

/-! ### The function

The loop has no bound of its own, and neither has a call of the guest; as functions both run on
fuel, and with enough of it they return what the relations say. -/

theorem acRun_mono {order : EvalOrder} {fuel fuel' : ℕ} (hle : fuel ≤ fuel') {cycle : ULONG}
    {c : Cpu} {m : Machine} {r : LoopExit 32 (Cpu × Machine)}
    (h : acRun bus order fuel cycle c m = some r) : acRun bus order fuel' cycle c m = some r := by
  rw [acRun_eq_loop] at h ⊢
  exact Budget.loop_mono hle h

theorem AcRuns.acRunTrail {order : EvalOrder} {cycle : ULONG} {x y : Cpu × Machine}
    (h : AcRuns order cycle x y) :
    ∃ fuel₀, ∀ fuel ≥ fuel₀, (acRunTrail order fuel cycle x).final = some y := by
  obtain ⟨fuel₀, r, hr, rfl⟩ := h
  refine ⟨fuel₀, fun fuel hfuel => ?_⟩
  rw [B2OS.acRunTrail, acRun_mono hfuel hr, Option.map_some]

theorem DiskLoop.diskLoop {order : EvalOrder} {x z : Cpu × Machine} {n : ℕ}
    (h : DiskLoop (AcRuns order 5000) x n z) :
    ∃ fuel₀, ∀ fuel ≥ fuel₀, ∀ rounds > n, (diskLoop order fuel rounds x).final = some z := by
  induction h with
  | @stop x hstop =>
      refine ⟨0, fun fuel _ rounds hrounds => ?_⟩
      obtain ⟨rounds, rfl⟩ := Nat.exists_eq_add_of_lt hrounds
      simp only [Nat.zero_add, B2OS.diskLoop, hstop]
      rfl
  | @again x y z n hagain hrun _ ih =>
      obtain ⟨fuel₁, hguest⟩ := hrun.acRunTrail
      obtain ⟨fuel₂, hrest⟩ := ih
      refine ⟨max fuel₁ fuel₂, fun fuel hfuel rounds hrounds => ?_⟩
      obtain ⟨rounds, rfl⟩ := Nat.exists_eq_add_of_lt hrounds
      have hthis := hguest fuel (le_of_max_le_left hfuel)
      simp only [B2OS.diskLoop, hagain, if_true]
      rw [Trail.final_andThen rfl, Trail.final_andThen hthis]
      exact hrest fuel (le_of_max_le_right hfuel) _ (by omega)

end B2OS
