import B2OS.Lib.Trail
import B2OS.Apple2.CycleCharge
import B2OS.Apple2.VideoRead

/-!
# Sessions with and without Frames

A session is what the kernel does with the emulator: it lets the guest program run and renders
frames in between. The `Trail` of a session holds the state after every instruction and after
every turn of the disk, also when a run of the guest does not return.

`eraseDisplay` forgets the variables that only the display uses. The memory bus does not look at
them, so that erasing them commutes with everything the guest does, and a frame changes nothing
that is left.

## Main results

* `bus_erases`: the memory bus does not look at the display.
* `session_erase`: a session passes, up to the display, through the states of the session
  without its frames.
* `render_undisturbed`: frames do not disturb the emulated machine.
-/

namespace B2OS

open Machine

/-- The state without the variables of the display. -/
def eraseDisplay (x : Cpu × Machine) : Cpu × Machine := (x.1, x.2.eraseDisplay)

/-! ### The operations -/

def machineRender (fonts : Fonts) (frame : ℤ) (x : Cpu × Machine) : Cpu × Machine :=
  (x.1, (x.2.render fonts frame).machine)

/-- `ad_UpdateFloppyDisk`, on the machine. -/
def updateFloppyDisk (x : Cpu × Machine) : Bool × (Cpu × Machine) :=
  let (again, d) := x.2.device.adUpdateFloppyDisk
  (again, x.1, x.2.withDevice d)

section Operations

variable (order : EvalOrder) (fuel : ℕ)

/-- `ac_Run`, with the states after each of its instructions. -/
def acRunTrail (cycle : ULONG) (x : Cpu × Machine) : Trail (Cpu × Machine) where
  passed := (List.range ((acRun bus order fuel cycle x.1 x.2).elim fuel
    LoopExit.iterations)).map fun i => (acIteration bus order)^[i + 1] x
  final := (acRun bus order fuel cycle x.1 x.2).map LoopExit.state

/-- The loop of `machine_Run` that runs the guest while the disk turns. -/
def diskLoop : ℕ → Cpu × Machine → Trail (Cpu × Machine)
  | 0, _ => ⟨[], none⟩
  | n + 1, x =>
      let (again, x) := updateFloppyDisk x
      (Trail.step x).andThen fun x =>
        if again then (acRunTrail order fuel 5000 x).andThen (diskLoop n) else .stay x

def machineRun (cycle : ULONG) (x : Cpu × Machine) : Trail (Cpu × Machine) :=
  (acRunTrail order fuel cycle x).andThen (diskLoop order fuel fuel)

end Operations

/-- What the kernel does with the emulator. -/
inductive SessionOp
  | acRun (cycle : ULONG)
  | machineRun (cycle : ULONG)
  | render (frame : ℤ)

/-- The operation is no frame. -/
def SessionOp.isGuest : SessionOp → Bool
  | .render _ => false
  | _ => true

section Sessions

variable (fonts : Fonts) (order : EvalOrder) (fuel : ℕ)

def sessionStep (x : Cpu × Machine) : SessionOp → Trail (Cpu × Machine)
  | .acRun cycle => acRunTrail order fuel cycle x
  | .machineRun cycle => machineRun order fuel cycle x
  | .render frame => .stay (machineRender fonts frame x)

/-- The trail of a session; each of its loops runs for at most `fuel` rounds. -/
def session : List SessionOp → Cpu × Machine → Trail (Cpu × Machine)
  | [], x => .stay x
  | op :: l, x => (sessionStep fonts order fuel x op).andThen (session l)

end Sessions

/-- The states that the emulator comes to when the guest runs, the disk turns and frames are
rendered. -/
inductive Reachable (images : Images) (fonts : Fonts) (order : EvalOrder) (x : Cpu × Machine) :
    Cpu × Machine → Prop
  | init : Reachable images fonts order x (machineInitMachine images x)
  | instruction {y : Cpu × Machine} :
      Reachable images fonts order x y → Reachable images fonts order x (acIteration bus order y)
  | turn {y : Cpu × Machine} :
      Reachable images fonts order x y → Reachable images fonts order x (updateFloppyDisk y).2
  | render {y : Cpu × Machine} (frame : ℤ) :
      Reachable images fonts order x y →
        Reachable images fonts order x (machineRender fonts frame y)

/-! ### The page that is shown -/

theorem switch_paged {m : Machine} (h : Paged m.device) (address : WORD) (value : BYTE)
    (WRT : Bool) (sw : SoftSwitch) : Paged (m.switch address value WRT sw).2.device := by
  cases sw with
  | page1 => exact .inl rfl
  | page2 => exact .inr rfl
  | moveHead =>
      simp only [Machine.switch, Machine.setDevice, Device.adStepMotor]
      split_ifs <;> exact h
  | shiftLatch =>
      simp only [Machine.switch, Machine.setDevice, Device.shiftLatch]
      split_ifs <;> exact h
  | paddle pdl =>
      simp only [Machine.switch, Device.adReadPaddle]
      split_ifs <;> exact h
  | _ => exact h

/-- Every access leaves one of the two pages. -/
theorem access_paged {m : Machine} (h : Paged m.device) (a : MemAccess) :
    Paged (m.access a).device :=
  Machine.access_device_inv h fun value WRT sw _ => switch_paged h a.address value WRT sw

theorem acIteration_paged (order : EvalOrder) {x : Cpu × Machine} (h : Paged x.2.device) :
    Paged (acIteration bus order x).2.device :=
  BusProg.exec_inv (I := fun m : Machine => Paged m.device)
    (fun a _ hs => access_paged hs (.read a)) (fun a b _ hs => access_paged hs (.write a b)) _ h

theorem updateFloppyDisk_paged {x : Cpu × Machine} (h : Paged x.2.device) :
    Paged (updateFloppyDisk x).2.2.device := by
  simp only [updateFloppyDisk, Device.adUpdateFloppyDisk]
  split_ifs <;> exact h

theorem machineRender_paged {x : Cpu × Machine} (h : Paged x.2.device) (fonts : Fonts)
    (frame : ℤ) : Paged (machineRender fonts frame x).2.device := by
  rw [machineRender, render_eq h]
  exact (render_shows h fonts frame).paged h

/-- The page that is shown is always one of the two. -/
theorem Reachable.paged {images : Images} {fonts : Fonts} {order : EvalOrder}
    {x y : Cpu × Machine} (h : Reachable images fonts order x y) : Paged y.2.device := by
  induction h with
  | init =>
      rw [machineInitMachine_device]
      exact .inl rfl
  | instruction _ ih => exact acIteration_paged order ih
  | turn _ ih => exact updateFloppyDisk_paged ih
  | render frame _ ih => exact machineRender_paged ih fonts frame

/-! ### Erasing the display -/

theorem shiftLatch_erase (d : Device) :
    d.eraseDisplay.shiftLatch = d.shiftLatch.eraseDisplay := by
  have hdisk : d.eraseDisplay.disk d.eraseDisplay.currentDrive = d.disk d.currentDrive := rfl
  rw [Device.shiftLatch, Device.shiftLatch]
  simp only [hdisk]
  split_ifs <;> rfl

theorem adReadPaddle_erase (cpu_tick : ULONG) (pdl : ℕ) (d : Device) :
    d.eraseDisplay.adReadPaddle cpu_tick pdl =
      ((d.adReadPaddle cpu_tick pdl).1, (d.adReadPaddle cpu_tick pdl).2.eraseDisplay) := by
  have hgcc : d.eraseDisplay.GCC = d.GCC := rfl
  have hstart : d.eraseDisplay.GCCrigger = d.GCCrigger := rfl
  rw [Device.adReadPaddle, Device.adReadPaddle]
  simp only [hgcc, hstart]
  split_ifs <;> rfl

theorem adUpdateFloppyDisk_erase (d : Device) :
    d.eraseDisplay.adUpdateFloppyDisk =
      (d.adUpdateFloppyDisk.1, d.adUpdateFloppyDisk.2.eraseDisplay) := by
  have hdisk : d.eraseDisplay.disk d.eraseDisplay.currentDrive = d.disk d.currentDrive := rfl
  rw [Device.adUpdateFloppyDisk, Device.adUpdateFloppyDisk]
  simp only [hdisk]
  split_ifs <;> rfl

theorem switch_erase (m : Machine) (address : WORD) (value : BYTE) (WRT : Bool)
    (sw : SoftSwitch) : m.eraseDisplay.switch address value WRT sw =
      ((m.switch address value WRT sw).1, (m.switch address value WRT sw).2.eraseDisplay) := by
  cases sw with
  | moveHead =>
      simp only [Machine.switch, Machine.eraseDisplay, Machine.setDevice, Device.adStepMotor]
      split_ifs <;> rfl
  | shiftLatch =>
      simp only [Machine.switch, Machine.eraseDisplay, Machine.setDevice, shiftLatch_erase]
      rfl
  | paddle pdl =>
      simp only [Machine.switch, Machine.eraseDisplay, Machine.setDevice, adReadPaddle_erase]
  | _ => rfl

theorem adSoftSwitch_erase (m : Machine) (address : WORD) (value : BYTE) (WRT : Bool) :
    m.eraseDisplay.adSoftSwitch address value WRT =
      ((m.adSoftSwitch address value WRT).1,
        (m.adSoftSwitch address value WRT).2.eraseDisplay) := by
  rw [adSoftSwitch, adSoftSwitch]
  cases SoftSwitch.ofAddress address with
  | none => rfl
  | some sw =>
      simp only [switch_erase]
      rfl

/-- The memory bus does not look at the display. -/
theorem bus_erases : bus.Erases bus Machine.eraseDisplay where
  read a m := by
    have hmem : m.eraseDisplay.mem = m.mem := rfl
    simp only [bus, Machine.memReadByte, adSoftSwitch_erase, hmem]
    split_ifs <;> rfl
  write a b m := by
    have hmem : m.eraseDisplay.mem = m.mem := rfl
    simp only [bus, Machine.memWriteByte, adSoftSwitch_erase, hmem]
    split_ifs <;> rfl

section Erase

variable (order : EvalOrder) (fuel : ℕ)

theorem acIteration_erase (x : Cpu × Machine) :
    acIteration bus order (eraseDisplay x) = eraseDisplay (acIteration bus order x) := by
  simp only [acIteration, eraseDisplay, BusProg.exec_erase bus_erases]

theorem acIterations_erase (n : ℕ) (x : Cpu × Machine) :
    (acIteration bus order)^[n] (eraseDisplay x) =
      eraseDisplay ((acIteration bus order)^[n] x) := by
  induction n generalizing x with
  | zero => rfl
  | succ n ih => rw [Function.iterate_succ_apply, Function.iterate_succ_apply,
      acIteration_erase, ih]

theorem acRun_erase (cycle : ULONG) (c : Cpu) (m : Machine) :
    acRun bus order fuel cycle c m.eraseDisplay =
      (acRun bus order fuel cycle c m).map fun r => { r with state := eraseDisplay r.state } := by
  induction fuel generalizing cycle c m with
  | zero => rfl
  | succ fuel ih =>
      simp only [acRun, BusProg.exec_erase bus_erases, ih]
      split_ifs
      · rfl
      · rw [Option.map_map, Option.map_map]
        rfl
      · rfl

theorem acRunTrail_erase (cycle : ULONG) (x : Cpu × Machine) :
    (acRunTrail order fuel cycle x).map eraseDisplay =
      acRunTrail order fuel cycle (eraseDisplay x) := by
  have hrun : acRun bus order fuel cycle (eraseDisplay x).1 (eraseDisplay x).2 = _ :=
    acRun_erase order fuel cycle x.1 x.2
  simp only [acRunTrail, Trail.map, hrun, List.map_map, Option.map_map, acIterations_erase]
  cases acRun bus order fuel cycle x.1 x.2 <;> rfl

theorem updateFloppyDisk_erase (x : Cpu × Machine) :
    updateFloppyDisk (eraseDisplay x) =
      ((updateFloppyDisk x).1, eraseDisplay (updateFloppyDisk x).2) := by
  simp only [updateFloppyDisk, eraseDisplay, Machine.eraseDisplay, Machine.setDevice,
    adUpdateFloppyDisk_erase]
  rfl

theorem diskLoop_erase (n : ℕ) (x : Cpu × Machine) :
    (diskLoop order fuel n x).map eraseDisplay = diskLoop order fuel n (eraseDisplay x) := by
  induction n generalizing x with
  | zero => rfl
  | succ n ih =>
      simp only [diskLoop, updateFloppyDisk_erase]
      refine Trail.map_andThen fun y _ => ?_
      split_ifs
      · rw [Trail.map_andThen fun z _ => ih z, acRunTrail_erase]
      · rfl

theorem machineRun_erase (cycle : ULONG) (x : Cpu × Machine) :
    (machineRun order fuel cycle x).map eraseDisplay =
      machineRun order fuel cycle (eraseDisplay x) := by
  rw [machineRun, Trail.map_andThen fun y _ => diskLoop_erase order fuel fuel y,
    acRunTrail_erase, machineRun]

/-- Erasing the display commutes with everything but the frames. -/
theorem sessionStep_erase (fonts : Fonts) (x : Cpu × Machine) {op : SessionOp}
    (hop : op.isGuest = true) : (sessionStep fonts order fuel x op).map eraseDisplay =
      sessionStep fonts order fuel (eraseDisplay x) op := by
  cases op with
  | acRun cycle => exact acRunTrail_erase order fuel cycle x
  | machineRun cycle => exact machineRun_erase order fuel cycle x
  | render frame => cases hop

end Erase

/-! ### Sessions -/

section Sessions

variable {images : Images} {fonts : Fonts} {order : EvalOrder} {fuel : ℕ} {x y : Cpu × Machine}

theorem Reachable.iterate (h : Reachable images fonts order x y) (n : ℕ) :
    Reachable images fonts order x ((acIteration bus order)^[n] y) := by
  induction n with
  | zero => exact h
  | succ n ih =>
      rw [Function.iterate_succ_apply']
      exact ih.instruction

/-- What `ac_Run` passes through. -/
theorem acRunTrail_within (h : Reachable images fonts order x y) (cycle : ULONG) :
    (acRunTrail order fuel cycle y).Within (Reachable images fonts order x) where
  passed s hs := by
    obtain ⟨i, -, rfl⟩ := List.mem_map.mp hs
    exact h.iterate (i + 1)
  final s hs := by
    obtain ⟨r, hr, rfl⟩ := Option.map_eq_some_iff.mp hs
    have hstate := ((acRun_eq_some_iff bus order cycle y.1 y.2 r).mp ⟨fuel, hr⟩).2.2
    rw [hstate]
    exact h.iterate r.iterations

theorem diskLoop_within (n : ℕ) (h : Reachable images fonts order x y) :
    (diskLoop order fuel n y).Within (Reachable images fonts order x) := by
  induction n generalizing y with
  | zero =>
      rw [diskLoop]
      exact ⟨fun _ hs => absurd hs List.not_mem_nil, fun _ hs => absurd hs (Option.not_mem_none _)⟩
  | succ n ih =>
      rw [diskLoop]
      refine (Trail.Within.step h.turn).andThen fun z hz => ?_
      split_ifs
      · exact (acRunTrail_within hz 5000).andThen fun w hw => ih hw
      · exact .stay hz

theorem sessionStep_within (h : Reachable images fonts order x y) (op : SessionOp) :
    (sessionStep fonts order fuel y op).Within (Reachable images fonts order x) := by
  cases op with
  | acRun cycle => exact acRunTrail_within h cycle
  | machineRun cycle => exact (acRunTrail_within h cycle).andThen fun z hz => diskLoop_within fuel hz
  | render frame => exact .stay (h.render frame)

/-- All the states of a session are reachable. -/
theorem session_within (l : List SessionOp) (h : Reachable images fonts order x y) :
    (session fonts order fuel l y).Within (Reachable images fonts order x) := by
  induction l generalizing y with
  | nil => exact .stay h
  | cons op l ih => exact (sessionStep_within h op).andThen fun z hz => ih hz

/-- A frame changes the display only. -/
theorem machineRender_erase (h : Paged y.2.device) (frame : ℤ) :
    eraseDisplay (machineRender fonts frame y) = eraseDisplay y :=
  congrArg (Prod.mk y.1) (render_erase h fonts frame)

/-- Up to the display, a session passes through the states of the session without its frames. -/
theorem session_erase (l : List SessionOp) (h : Reachable images fonts order x y) :
    (session fonts order fuel l y).map eraseDisplay =
      session fonts order fuel (l.filter SessionOp.isGuest) (eraseDisplay y) := by
  induction l generalizing y with
  | nil => rfl
  | cons op l ih =>
      by_cases hop : op.isGuest = true
      · rw [List.filter_cons_of_pos hop, session, session,
          Trail.map_andThen fun z hz => ih ((sessionStep_within h op).final z hz),
          sessionStep_erase order fuel fonts y hop]
      · rw [List.filter_cons_of_neg hop]
        cases op with
        | render frame =>
            rw [session, sessionStep, Trail.stay_andThen, ih (h.render frame),
              machineRender_erase h.paged]
        | acRun cycle => exact absurd rfl hop
        | machineRun cycle => exact absurd rfl hop

end Sessions

/-- **Frames do not disturb the emulated machine.** In every state that the guest can reach, a
frame reads RAM only and changes nothing but the variables of the display. Every session passes
through the states of the same session without its frames, up to these variables. -/
theorem render_undisturbed (images : Images) (fonts : Fonts) (order : EvalOrder)
    (x : Cpu × Machine) :
    (∀ y, Reachable images fonts order x y → ∀ frame,
        eraseDisplay (machineRender fonts frame y) = eraseDisplay y ∧
          ∀ a ∈ (y.2.render fonts frame).reads, a.toNat < 0xC000) ∧
      ∀ fuel l,
        (session fonts order fuel l (machineInitMachine images x)).Within
            (Reachable images fonts order x) ∧
          (session fonts order fuel l (machineInitMachine images x)).map eraseDisplay =
            (session fonts order fuel (l.filter SessionOp.isGuest)
              (machineInitMachine images x)).map eraseDisplay := by
  refine ⟨fun y hy frame => ⟨machineRender_erase hy.paged frame,
    (render_shows hy.paged fonts frame).follows.reads⟩, fun fuel l => ⟨session_within l .init, ?_⟩⟩
  rw [session_erase l .init, session_erase _ .init, List.filter_filter]
  simp only [Bool.and_self]

end B2OS
