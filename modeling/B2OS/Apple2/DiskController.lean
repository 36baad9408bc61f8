import B2OS.Lib.Selector
import B2OS.Apple2.DiskLatch
import B2OS.Apple2.SessionRun

/-!
# The Disk Controller and its Two Drives

The emulator keeps the state of the disk controller in arrays with a row for each drive, and finds
the row by `currentDrive`. The hardware has two drives that know nothing of each other, on lines
that they share: which of them listens, one motor line, one data latch. `Device.controller` reads
the arrays as such a controller, and each access of the guest is a command to it, as long as the
latch is not used with the head past the end of the image.

So each drive does what it would do alone with the commands that came while it was selected, and
each nibble of an image is the one that was stored there last, or that of the inserted file.

## Main results

* `access_controller`: an access is a command to the controller.
* `session_drives`: over a session the drives are two drives behind a selector.
* `session_nibbles`: over a session an image holds what was stored last.
-/

namespace B2OS

open Machine

/-! ### The controller -/

/-- A drive by itself. -/
structure DriveUnit where
  readOnly : Bool
  data : Fin DISK_SIZE → BYTE
  writeMode : Bool
  track : BYTE
  nibble : WORD
  head : ℤ
  phases : ℕ → Bool
  phasesB : ℕ → Bool
  phasesBB : ℕ → Bool
  pIdx : ℕ
  pIdxB : ℕ

/-- What the drives share. -/
structure DriveLines where
  selected : ℕ
  motor : Bool
  latch : BYTE

/-- The commands that the controller takes from the bus. -/
inductive DiskCommand
  | stepper (address : WORD)
  | motor (on : Bool)
  | select (drv : Fin 2)
  | shift
  | load (value : BYTE)
  | mode (writing : Bool)

/-- The command of an access. -/
def DiskCommand.ofAccess (a : MemAccess) : Option DiskCommand :=
  match SoftSwitch.ofAddress a.address with
  | some .moveHead => some (.stepper a.address)
  | some .motorOff => some (.motor false)
  | some .motorOn => some (.motor true)
  | some (.drive drv) => some (.select drv)
  | some .shiftLatch => some .shift
  | some .loadLatch => some (.load a.value)
  | some .latchForRead => some (.mode false)
  | some .latchForWrite => some (.mode true)
  | _ => none

namespace DriveUnit

/-- A phase is switched on or off. Two copies of the phases follow at a distance; the head goes
towards the phase from a neighbour that is on in the older one. -/
def stepMotor (address : WORD) (u : DriveUnit) : DriveUnit :=
  let address := address &&& 7
  let phase := (address >>> 1).toNat
  let phasesBB := setAt u.phasesBB u.pIdxB (u.phasesB u.pIdxB)
  let phasesB := setAt u.phasesB u.pIdx (u.phases u.pIdx)
  let u := { u with phasesBB, phasesB, pIdxB := u.pIdx, pIdx := phase }
  if address &&& 1 = 0 then { u with phases := setAt u.phases phase false }
  else
    let h := if phasesBB ((phase + 1) % 4) then Device.headIn u.head else u.head
    let h := if phasesBB ((phase + 3) % 4) then Device.headOut h else h
    { u with
      head := h
      phases := setAt u.phases phase true
      track := BitVec.ofInt 8 ((h + 1) / 2) }

/-- The place of the image under the head. -/
def cell (u : DriveUnit) : ℕ := u.track.toNat * TRACK_SIZE + u.nibble.toNat

/-- The disk turns by one nibble, which is stored over in the write mode. -/
def shift (latch : BYTE) (u : DriveUnit) : DriveUnit :=
  { u with
    data := fun i => if u.writeMode = true ∧ i.val = u.cell then latch else u.data i
    nibble := BitVec.ofNat 16 ((u.nibble.toNat + 1) % TRACK_SIZE) }

/-- What is in the latch then: the nibble under the head in the read mode. -/
def answer (latch : BYTE) (u : DriveUnit) : BYTE :=
  if u.writeMode then latch
  else if h : u.cell < DISK_SIZE then u.data ⟨u.cell, h⟩ else latch

/-- A drive that is selected. -/
def command (c : DiskCommand) (lines : DriveLines) (u : DriveUnit) : DriveUnit :=
  match c with
  | .stepper address => u.stepMotor address
  | .shift => u.shift lines.latch
  | .mode writing => { u with writeMode := writing }
  | .motor _ | .select _ | .load _ => u

end DriveUnit

/-- The lines at a command, with the drive that is selected. -/
def DriveLines.command (c : DiskCommand) (lines : DriveLines) (u : DriveUnit) : DriveLines :=
  match c with
  | .motor on => { lines with motor := on }
  | .select drv => { lines with selected := drv }
  | .shift => { lines with latch := u.answer lines.latch }
  | .load value => { lines with latch := value }
  | .stepper _ | .mode _ => lines

/-- Two drives behind a selector. -/
def diskController : Selector ℕ DriveLines DriveUnit DiskCommand where
  selected := DriveLines.selected
  shared := DriveLines.command
  unit := DriveUnit.command

/-! ### The controller in the arrays of the emulator -/

namespace Device

/-- The rows of a drive. -/
def unit (d : Device) (drv : ℕ) : DriveUnit where
  readOnly := (d.disk drv).readOnly
  data i := (d.disk drv).data i
  writeMode := (d.disk drv).writeMode
  track := (d.disk drv).track
  nibble := (d.disk drv).nibble
  head := d.halfTrackPos drv
  phases := d.phases drv
  phasesB := d.phasesB drv
  phasesBB := d.phasesBB drv
  pIdx := d.pIdx drv
  pIdxB := d.pIdxB drv

/-- The motor line is the motor of the selected drive. -/
def lines (d : Device) : DriveLines where
  selected := d.currentDrive
  motor := (d.disk d.currentDrive).motorOn
  latch := d.dLatch

def controller (d : Device) : DriveLines × (ℕ → DriveUnit) := (d.lines, d.unit)

variable {d : Device}

/-- A step of the controller, from what became of the lines and of each drive. -/
theorem controller_eq_step {d' : Device} {c : DiskCommand}
    (hlines : d'.lines = d.lines.command c (d.unit d.currentDrive))
    (hself : d'.unit d.currentDrive = (d.unit d.currentDrive).command c d.lines)
    (hother : ∀ drv, drv ≠ d.currentDrive → d'.unit drv = d.unit drv) :
    d'.controller = diskController.step d.controller c := by
  refine Prod.ext hlines (funext fun drv => ?_)
  by_cases h : drv = d.currentDrive
  · have hstep := Selector.step_unit_self (b := diskController) (x := d.controller) c h.symm
    rw [h] at hstep ⊢
    exact hself.trans hstep.symm
  · have hstep := Selector.step_unit_of_ne (b := diskController) (x := d.controller) c (Ne.symm h)
    exact (hother drv h).trans hstep.symm

theorem stepper_controller (address : WORD) :
    (d.adStepMotor address).controller = diskController.step d.controller (.stepper address) := by
  refine controller_eq_step ?_ ?_ fun drv h => ?_
  · simp only [adStepMotor]
    split_ifs <;> simp [lines, DriveLines.command, setDisk, setAt]
  · simp only [adStepMotor, DriveUnit.command, DriveUnit.stepMotor, unit, setAt2, setAt_self]
    split_ifs <;> simp only [setDisk, setAt_self, if_true, if_false, Bool.false_eq_true, *]
  · simp only [adStepMotor]
    split_ifs <;> simp [unit, setDisk, setAt, setAt2, h]

theorem motor_controller (on : Bool) :
    (d.setDisk d.currentDrive fun f => { f with motorOn := on }).controller =
      diskController.step d.controller (.motor on) := by
  refine controller_eq_step ?_ ?_ fun drv h => ?_
  · simp [lines, DriveLines.command, setDisk]
  · simp [unit, DriveUnit.command, setDisk]
  · simp [unit, setDisk, setAt_of_ne h]

theorem mode_controller (writing : Bool) :
    (d.setDisk d.currentDrive fun f => { f with writeMode := writing }).controller =
      diskController.step d.controller (.mode writing) := by
  refine controller_eq_step ?_ ?_ fun drv h => ?_
  · simp [lines, DriveLines.command, setDisk]
  · simp [unit, DriveUnit.command, setDisk]
  · simp [unit, setDisk, setAt_of_ne h]

theorem load_controller (value : BYTE) :
    { d with dLatch := value }.controller = diskController.step d.controller (.load value) :=
  controller_eq_step rfl rfl fun _ _ => rfl

/-- The motor line goes over to the drive that is selected. -/
theorem select_controller (hd : DriveInv d) (drv : Fin 2) :
    (d.adSetDrv drv).controller = diskController.step d.controller (.select drv) := by
  have hunit : ∀ i, (d.adSetDrv drv).unit i = d.unit i := fun i => by
    simp only [unit, adSetDrv, setDisk, setAt_apply]
    split_ifs <;> simp_all
  refine controller_eq_step ?_ (hunit _) fun i _ => hunit i
  have hother : otherDrive drv < 2 ∧ otherDrive drv ≠ drv := by
    have := drv.isLt
    rw [otherDrive]
    split_ifs <;> omega
  have hmotor : ((d.disk (otherDrive drv)).motorOn || (d.disk drv).motorOn) =
      (d.disk d.currentDrive).motorOn := by
    by_cases hsame : drv.val = d.currentDrive
    · rw [hd.motor _ hother.1 (hsame ▸ hother.2), Bool.false_or, hsame]
    · have hcur : otherDrive drv = d.currentDrive := by
        have := drv.isLt
        have := hd.currentDrive
        rw [otherDrive]
        split_ifs <;> omega
      rw [hd.motor _ drv.isLt hsame, Bool.or_false, hcur]
  simp [lines, DriveLines.command, adSetDrv, setDisk, setAt_apply, hother.2.symm, hmotor]

/-- The latch is used with the head in the image. -/
theorem shift_controller (hd : d.latchIndex < DISK_SIZE) :
    d.shiftLatch.controller = diskController.step d.controller .shift := by
  have hcell : (d.unit d.currentDrive).cell = d.latchIndex := rfl
  refine controller_eq_step ?_ ?_ fun drv h => ?_
  · simp only [DriveLines.command, DriveUnit.answer, hcell, dif_pos hd]
    simp only [shiftLatch, lines, unit]
    split_ifs with hmode <;> simp [setDisk, hmode]
  · simp only [DriveUnit.command, DriveUnit.shift, hcell]
    simp only [shiftLatch]
    split_ifs with hmode
    · simp [unit, setDisk, lines, setAt_apply, hmode]
    · simp [unit, setDisk, hmode]
  · simp only [shiftLatch]
    split_ifs <;> simp [unit, setDisk, setAt_of_ne h]

end Device

/-! ### Accesses -/

theorem SoftSwitch.ofAddress_page {address : WORD} {sw : SoftSwitch}
    (h : SoftSwitch.ofAddress address = some sw) :
    0xC000 ≤ address.toNat ∧ address.toNat < 0xC100 ∨ address = 0xCFFF := by
  have hnat : 0xC000 ≤ address.toNat ∧ address.toNat < 0xC100 ∨ address.toNat = 0xCFFF := by
    rw [SoftSwitch.ofAddress] at h
    split at h <;> first | omega | cases h
  rcases hnat with hpage | hlast
  · exact Or.inl hpage
  · exact Or.inr (BitVec.eq_of_toNat_eq hlast)

namespace Machine

/-- $CFFF is the one switch outside of the page. -/
theorem access_motorOff (m : Machine) {a : MemAccess} (h : a.address = 0xCFFF) :
    m.access a = (m.adSoftSwitch a.address a.value a.WRT).2 := by
  cases a with
  | read address =>
      obtain rfl : address = 0xCFFF := h
      rfl
  | write address value =>
      obtain rfl : address = 0xCFFF := h
      have hrom : ¬ (m.mem.LCWritable ∧ ROMSTART ≤ (0xCFFF : WORD).toNat) := fun h =>
        absurd h.2 (by decide)
      simp only [access, memWriteByte, dif_neg hrom]
      rfl

/-- What an access does to the devices. -/
theorem access_device (m : Machine) (a : MemAccess) : (m.access a).device =
    match SoftSwitch.ofAddress a.address with
    | some sw => (m.switch a.address a.value a.WRT sw).2.device
    | none => m.device := by
  cases hsw : SoftSwitch.ofAddress a.address with
  | none =>
      rcases m.access_device_or a with h | ⟨value, WRT, h⟩
      · exact h
      · rw [h, adSoftSwitch, hsw]
  | some sw =>
      have hswitch : m.access a = (m.adSoftSwitch a.address a.value a.WRT).2 := by
        rcases SoftSwitch.ofAddress_page hsw with ⟨hlo, hhi⟩ | hlast
        · exact m.access_eq_adSoftSwitch hlo hhi
        · exact m.access_motorOff hlast
      rw [hswitch, adSoftSwitch, hsw]

/-- An access to the latch has the head in the image. -/
def LatchInImage (m : Machine) (a : MemAccess) : Prop :=
  a.address = 0xC0EC → m.device.latchIndex < DISK_SIZE

end Machine

theorem SoftSwitch.ofAddress_shiftLatch {address : WORD}
    (h : SoftSwitch.ofAddress address = some .shiftLatch) : address = 0xC0EC := by
  refine BitVec.eq_of_toNat_eq ?_
  rw [SoftSwitch.ofAddress] at h
  split at h <;> first | assumption | simp at h

/-- An access is a command to the controller, or nothing to it. -/
theorem access_controller {m : Machine} {a : MemAccess} (h : DriveInv m.device)
    (hin : m.LatchInImage a) : (m.access a).device.controller =
      match DiskCommand.ofAccess a with
      | some c => diskController.step m.device.controller c
      | none => m.device.controller := by
  rw [access_device, DiskCommand.ofAccess]
  cases hsw : SoftSwitch.ofAddress a.address with
  | none => rfl
  | some sw =>
      cases sw with
      | moveHead => exact Device.stepper_controller a.address
      | motorOff => exact Device.motor_controller false
      | motorOn => exact Device.motor_controller true
      | drive drv => exact Device.select_controller h drv
      | shiftLatch => exact Device.shift_controller (hin (SoftSwitch.ofAddress_shiftLatch hsw))
      | loadLatch => exact Device.load_controller a.value
      | latchForRead => exact Device.mode_controller false
      | latchForWrite => exact Device.mode_controller true
      | paddle pdl =>
          simp only [Machine.switch, Device.adReadPaddle]
          split_ifs <;> rfl
      | _ => rfl

/-! ### Runs -/

/-- Over a run of accesses the controller gets their commands. -/
theorem run_controller {m : Machine} (h : DriveInv m.device) {l : List MemAccess}
    (hin : Along Machine.access LatchInImage m l) : (l.foldl Machine.access m).device.controller =
      diskController.run m.device.controller (l.filterMap DiskCommand.ofAccess) := by
  induction l generalizing m with
  | nil => rfl
  | cons a l ih =>
      obtain ⟨hfirst, hrest⟩ := along_cons.mp hin
      have hstep := access_controller h hfirst
      rw [List.foldl_cons, ih (access_driveInv m a h) hrest, hstep, List.filterMap_cons]
      cases DiskCommand.ofAccess a <;> rfl

/-- The access without the value that came back. -/
def MemAccess.ofAccess : Access WORD BYTE → MemAccess
  | .read a _ => .read a
  | .write a b => .write a b

/-- The accesses of the first `k` instructions of the guest. -/
def guestAccesses (order : EvalOrder) (k : ℕ) (x : Cpu × Machine) : List MemAccess :=
  (((acSteps order k).run x.1).exec bus x.2).accesses.map MemAccess.ofAccess

/-- The guest leaves what its accesses leave. -/
theorem guestAccesses_foldl (order : EvalOrder) (k : ℕ) (x : Cpu × Machine) :
    ((acIteration bus order)^[k] x).2 = (guestAccesses order k x).foldl Machine.access x.2 := by
  have hafter : bus.after = fun m a => Machine.access m (MemAccess.ofAccess a) := by
    funext m a
    cases a <;> rfl
  rw [← acSteps_exec k x.1 x.2, guestAccesses, List.foldl_map, ← hafter]
  exact BusProg.exec_state bus _ x.2

section Sessions

variable (images : Images) (fonts : Fonts) (order : EvalOrder) (fuel : ℕ) (l : List SessionOp)
  (x : Cpu × Machine)

/-- Every state of a session is one of the guest, but for what the host keeps. -/
theorem session_guest :
    let y := machineInitMachine images x
    (session fonts order fuel l y).Within fun z => ∃ k,
      eraseHost z = eraseHost ((acIteration bus order)^[k] y) := by
  intro y
  have hstart : Reachable images fonts order x y := .init
  have hsession : ∃ ns, (session fonts order fuel l y).Along (acIteration bus order) (eraseHost y)
      eraseHost 0 ns := session_along l hstart rfl
  obtain ⟨ns, hwalk⟩ := hsession
  constructor
  · intro z hz
    have hmem : eraseHost z ∈ (session fonts order fuel l y).passed.map eraseHost :=
      List.mem_map_of_mem hz
    rw [hwalk.passed] at hmem
    obtain ⟨k, -, hk⟩ := List.mem_map.mp hmem
    exact ⟨k, hk.symm.trans (acIterations_eraseHost order k y)⟩
  · intro z hz
    exact ⟨_, (hwalk.final z hz).trans (acIterations_eraseHost order _ y)⟩

end Sessions

/-- The host keeps nothing of the drives. -/
theorem driveInv_eraseHost {d : Device} : DriveInv d.eraseHost ↔ DriveInv d :=
  ⟨fun h => ⟨h.currentDrive, h.track, h.head, h.nibble, h.motor⟩,
    fun h => ⟨h.currentDrive, h.track, h.head, h.nibble, h.motor⟩⟩

theorem controller_eraseHost (d : Device) : d.eraseHost.controller = d.controller := rfl

/-- What the controller is behind the first `k` instructions of the guest. -/
theorem guest_controller {order : EvalOrder} {k : ℕ} {y z : Cpu × Machine}
    (hy : DriveInv y.2.device) (hz : eraseHost z = eraseHost ((acIteration bus order)^[k] y)) :
    DriveInv z.2.device ∧
      (Along Machine.access LatchInImage y.2 (guestAccesses order k y) →
        z.2.device.controller = diskController.run y.2.device.controller
          ((guestAccesses order k y).filterMap DiskCommand.ofAccess)) := by
  have hdevice : z.2.device.eraseHost = ((acIteration bus order)^[k] y).2.device.eraseHost :=
    congrArg (fun w => w.2.device) hz
  rw [guestAccesses_foldl] at hdevice
  constructor
  · have hend : DriveInv ((guestAccesses order k y).foldl Machine.access y.2).device :=
      List.foldlRecOn (motive := fun m : Machine => DriveInv m.device) _ _ hy
        fun m hm a _ => access_driveInv m a hm
    rw [← driveInv_eraseHost, hdevice, driveInv_eraseHost]
    exact hend
  · intro hin
    rw [← controller_eraseHost, hdevice, controller_eraseHost]
    exact run_controller hy hin

/-- **The drives of a session are two drives behind a selector.** In every state of a session
the guest has executed some `k` instructions. If none of their accesses to the latch had the head
past the end of the image, then the controller is where their commands take it, and each drive is
what it would be alone with the commands that came while it was selected. Only the selected drive
has its motor on. -/
theorem session_drives (images : Images) (fonts : Fonts) (order : EvalOrder) (fuel : ℕ)
    (l : List SessionOp) (x : Cpu × Machine) :
    let y := machineInitMachine images x
    (session fonts order fuel l y).Within fun z => ∃ k,
      eraseHost z = eraseHost ((acIteration bus order)^[k] y) ∧
      (∀ drv < 2, (z.2.device.disk drv).motorOn = true →
        drv = z.2.device.currentDrive ∧ z.2.device.lines.motor = true) ∧
      let commands := (guestAccesses order k y).filterMap DiskCommand.ofAccess
      let start := y.2.device.controller
      Along Machine.access LatchInImage y.2 (guestAccesses order k y) →
        z.2.device.controller = diskController.run start commands ∧
        ∀ drv, z.2.device.unit drv =
          diskController.alone (start.2 drv) (diskController.told drv start commands) := by
  intro y
  have hinv : DriveInv y.2.device := machineInitMachine_driveInv images x
  refine (session_guest images fonts order fuel l x).mono fun z ⟨k, hz⟩ => ⟨k, hz, ?_, ?_⟩
  · obtain ⟨hdrives, -⟩ := guest_controller hinv hz
    intro drv hdrv hon
    by_cases hcur : drv = z.2.device.currentDrive
    · obtain rfl := hcur
      exact ⟨rfl, hon⟩
    · exact absurd hon (by simp [hdrives.motor drv hdrv hcur])
  · intro commands start hin
    have hcontroller := (guest_controller hinv hz).2 hin
    refine ⟨hcontroller, fun drv => ?_⟩
    have hunit : z.2.device.unit drv = (diskController.run start commands).2 drv :=
      congrFun (congrArg Prod.snd hcontroller) drv
    exact hunit.trans Selector.run_unit

/-! ### What is on a disk -/

/-- What a drive stores at a command into a place of its image. -/
def DriveUnit.stored (u : DriveUnit) (p : DiskCommand × DriveLines) (i : Fin DISK_SIZE) :
    Option BYTE :=
  match p.1 with
  | .shift => if u.writeMode = true ∧ i.val = u.cell then some p.2.latch else none
  | _ => none

theorem DriveUnit.command_data (u : DriveUnit) (p : DiskCommand × DriveLines)
    (i : Fin DISK_SIZE) : (u.command p.1 p.2).data i = (u.stored p i).getD (u.data i) := by
  obtain ⟨c, lines⟩ := p
  cases c with
  | shift =>
      simp only [command, shift, stored]
      split_ifs <;> rfl
  | stepper address =>
      simp only [command, stepMotor, stored]
      split_ifs <;> rfl
  | _ => rfl

/-- The files in the drives at the start: one disk is inserted, the other drive is empty. -/
def insertedDisk (images : Images) (drv : ℕ) (i : Fin DISK_SIZE) : BYTE :=
  if drv = 0 then images.rawData i else 0

theorem insertedDisk_eq (images : Images) (x : Cpu × Machine) {drv : ℕ} (hdrv : drv < 2)
    (i : Fin DISK_SIZE) :
    ((machineInitMachine images x).2.device.unit drv).data i = insertedDisk images drv i := by
  rw [machineInitMachine_device]
  interval_cases drv
  · exact if_pos i.isLt
  · rfl

/-- **What is on the disks of a session.** If no access of the guest to the latch had the head
past the end of the image, then each nibble of the two images is the one that its drive was told to
store there last, and the one of the inserted disk if there was none; and this is what a read of the
latch answers. -/
theorem session_nibbles (images : Images) (fonts : Fonts) (order : EvalOrder) (fuel : ℕ)
    (l : List SessionOp) (x : Cpu × Machine) :
    let y := machineInitMachine images x
    (session fonts order fuel l y).Within fun z => ∃ k,
      eraseHost z = eraseHost ((acIteration bus order)^[k] y) ∧
      let commands := (guestAccesses order k y).filterMap DiskCommand.ofAccess
      let start := y.2.device.controller
      let nibble := fun drv i => (lastStored (fun u p => DriveUnit.command p.1 p.2 u)
        DriveUnit.stored i (start.2 drv) (diskController.told drv start commands)).getD
          (insertedDisk images drv i)
      Along Machine.access LatchInImage y.2 (guestAccesses order k y) →
        (∀ drv < 2, ∀ i : Fin DISK_SIZE, (z.2.device.disk drv).data i = nibble drv i) ∧
        ∀ h : z.2.device.latchIndex < DISK_SIZE, z.2.device.selected.writeMode = false →
          (z.2.memReadByte 0xC0EC).1 =
            nibble z.2.device.currentDrive ⟨z.2.device.latchIndex, h⟩ := by
  intro y
  have hinv : DriveInv y.2.device := machineInitMachine_driveInv images x
  refine (session_guest images fonts order fuel l x).mono fun z ⟨k, hz⟩ => ⟨k, hz, ?_⟩
  intro commands start nibble hin
  obtain ⟨hdrives, hrun⟩ := guest_controller hinv hz
  have hdata : ∀ drv < 2, ∀ i : Fin DISK_SIZE, (z.2.device.disk drv).data i = nibble drv i := by
    intro drv hdrv i
    have hunit : z.2.device.unit drv = (diskController.run start commands).2 drv :=
      congrFun (congrArg Prod.snd (hrun hin)) drv
    have hlast := cell_foldl DriveUnit.data DriveUnit.command_data i
      (diskController.told drv start commands) (start.2 drv)
    have hstart : (start.2 drv).data i = insertedDisk images drv i :=
      insertedDisk_eq images x hdrv i
    rw [hstart] at hlast
    have hcell : (z.2.device.unit drv).data i =
        (diskController.alone (start.2 drv) (diskController.told drv start commands)).data i :=
      congrArg (fun u => u.data i) (hunit.trans Selector.run_unit)
    exact hcell.trans hlast
  refine ⟨hdata, fun h hmode => ?_⟩
  have hcur : z.2.device.currentDrive < 2 := by
    rcases hdrives.currentDrive with h0 | h1 <;> omega
  rw [← hdata _ hcur, memReadByte_shiftLatch]
  have hmode' : (z.2.device.disk z.2.device.currentDrive).writeMode = false := hmode
  simp only [setDevice, Device.shiftLatch, hmode', Bool.false_eq_true, if_false]
  rfl

end B2OS
