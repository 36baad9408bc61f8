import B2OS.Lib.Run
import B2OS.Apple2.Machine
import Mathlib.Tactic.IntervalCases

/-!
# The Disk II Controller over Whole Runs

The controller keeps the position of a head twice, as `halfTrackPos` in half tracks and as
`track` of the drive, and the selected drive apart from the motors. `DriveInv` says how
the copies belong together. Every access of the processor keeps it. `ad_Reset` and
`ad_InsertFloppy` each clear one of the copies and leave the other, so they keep it in
some states only.

The stepper moves the head up to half track 140, which is track 70, while an image holds
35 tracks: the data latch is inside the image as long as the head is.

## Main results

* `access_driveInv`: an access keeps the invariant.
* `driveInv_reachable_iff`: a run keeps the invariant exactly when every reset and every
  disk change of it meets `DriveOp.Safe`.
* `latch_in_image_iff`: the accesses to the data latch stay in the image exactly when the
  head is not past half track 68 at any of them.
-/

namespace B2OS

/-- How the copies of the drive state belong together. -/
structure DriveInv (d : Device) : Prop where
  currentDrive : d.currentDrive = 0 ∨ d.currentDrive = 1
  track : ∀ drv < 2, ((d.disk drv).track.toNat : ℤ) = (d.halfTrackPos drv + 1) / 2
  head : ∀ drv < 2, 0 ≤ d.halfTrackPos drv ∧ d.halfTrackPos drv ≤ 140
  nibble : ∀ drv < 2, (d.disk drv).nibble.toNat < TRACK_SIZE
  motor : ∀ drv < 2, drv ≠ d.currentDrive → (d.disk drv).motorOn = false

/-- The indices into the arrays of the controller, the data of a disk apart. -/
structure IndexInv (d : Device) : Prop where
  currentDrive : d.currentDrive < 2
  pIdx : ∀ drv < 2, d.pIdx drv < 4
  pIdxB : ∀ drv < 2, d.pIdxB drv < 4
  nibble : ∀ drv < 2, (d.disk drv).nibble.toNat < TRACK_SIZE

namespace Device

@[simp] theorem setDisk_disk (d : Device) (drv : ℕ) (f : FloppyDrive → FloppyDrive)
    (i : ℕ) : (d.setDisk drv f).disk i = if i = drv then f (d.disk drv) else d.disk i := rfl

@[simp] theorem setDisk_currentDrive (d : Device) (drv : ℕ)
    (f : FloppyDrive → FloppyDrive) : (d.setDisk drv f).currentDrive = d.currentDrive := rfl

@[simp] theorem setDisk_halfTrackPos (d : Device) (drv : ℕ)
    (f : FloppyDrive → FloppyDrive) : (d.setDisk drv f).halfTrackPos = d.halfTrackPos := rfl

@[simp] theorem setDisk_pIdx (d : Device) (drv : ℕ) (f : FloppyDrive → FloppyDrive) :
    (d.setDisk drv f).pIdx = d.pIdx := rfl

@[simp] theorem setDisk_pIdxB (d : Device) (drv : ℕ) (f : FloppyDrive → FloppyDrive) :
    (d.setDisk drv f).pIdxB = d.pIdxB := rfl

end Device

/-! ### One step -/

/-- A change of the selected drive that leaves its track alone and its nibble in range. -/
theorem DriveInv.setDisk {d : Device} (h : DriveInv d) {f : FloppyDrive → FloppyDrive}
    (htrack : ∀ g, (f g).track = g.track)
    (hnibble : ∀ g : FloppyDrive, g.nibble.toNat < TRACK_SIZE →
      (f g).nibble.toNat < TRACK_SIZE) :
    DriveInv (d.setDisk d.currentDrive f) where
  currentDrive := h.currentDrive
  track drv hdrv := by
    have := h.track drv hdrv
    by_cases hcur : drv = d.currentDrive
    · subst hcur
      simpa [htrack] using this
    · simpa [hcur] using this
  head := h.head
  nibble drv hdrv := by
    have := h.nibble drv hdrv
    by_cases hcur : drv = d.currentDrive
    · subst hcur
      simpa using hnibble _ this
    · simpa [hcur] using this
  motor drv hdrv hne := by
    have hne' : drv ≠ d.currentDrive := hne
    simpa [hne'] using h.motor drv hdrv hne'

theorem headIn_range {h : ℤ} (hh : 0 ≤ h ∧ h ≤ 140) :
    0 ≤ Device.headIn h ∧ Device.headIn h ≤ 140 := by
  rw [Device.headIn]
  split_ifs <;> omega

theorem headOut_range {h : ℤ} (hh : 0 ≤ h ∧ h ≤ 140) :
    0 ≤ Device.headOut h ∧ Device.headOut h ≤ 140 := by
  rw [Device.headOut]
  split_ifs <;> omega

/-- The stepper either leaves heads and disks alone, or puts the head of the selected
drive to a position in range and derives its track from it. -/
theorem adStepMotor_cases (address : WORD) (d : Device) :
    ((d.adStepMotor address).halfTrackPos = d.halfTrackPos ∧
      (d.adStepMotor address).disk = d.disk) ∨
    ∃ h, ((0 ≤ d.halfTrackPos d.currentDrive ∧ d.halfTrackPos d.currentDrive ≤ 140) →
        0 ≤ h ∧ h ≤ 140) ∧
      (d.adStepMotor address).halfTrackPos = setAt d.halfTrackPos d.currentDrive h ∧
      (d.adStepMotor address).disk = setAt d.disk d.currentDrive
        { d.disk d.currentDrive with track := BitVec.ofInt 8 ((h + 1) / 2) } := by
  simp only [Device.adStepMotor]
  split_ifs <;>
    first
    | exact .inl ⟨rfl, rfl⟩
    | exact .inr ⟨_, id, rfl, rfl⟩
    | exact .inr ⟨_, headIn_range, rfl, rfl⟩
    | exact .inr ⟨_, headOut_range, rfl, rfl⟩
    | exact .inr ⟨_, fun h => headOut_range (headIn_range h), rfl, rfl⟩

theorem adStepMotor_currentDrive (address : WORD) (d : Device) :
    (d.adStepMotor address).currentDrive = d.currentDrive := by
  simp only [Device.adStepMotor]
  split_ifs <;> rfl

/-- The track number fits into its byte. -/
theorem toNat_track {h : ℤ} (hh : 0 ≤ h ∧ h ≤ 140) :
    ((BitVec.ofInt 8 ((h + 1) / 2)).toNat : ℤ) = (h + 1) / 2 := by
  rw [BitVec.toNat_ofInt]
  omega

theorem DriveInv.adStepMotor {d : Device} (h : DriveInv d) (address : WORD) :
    DriveInv (d.adStepMotor address) := by
  have hcur := adStepMotor_currentDrive address d
  have hlt : d.currentDrive < 2 := by
    rcases h.currentDrive with h0 | h1 <;> omega
  rcases adStepMotor_cases address d with ⟨hhead, hdisk⟩ | ⟨p, hp, hhead, hdisk⟩
  · constructor
    · rw [hcur]; exact h.currentDrive
    · rw [hhead, hdisk]; exact h.track
    · rw [hhead]; exact h.head
    · rw [hdisk]; exact h.nibble
    · rw [hcur, hdisk]; exact h.motor
  · have hrange := hp (h.head _ hlt)
    constructor
    · rw [hcur]; exact h.currentDrive
    · intro drv hdrv
      have htrack := h.track drv hdrv
      by_cases heq : drv = d.currentDrive
      · subst heq
        rw [hhead, hdisk, setAt_self, setAt_self]
        exact toNat_track hrange
      · rw [hhead, hdisk, setAt_of_ne heq, setAt_of_ne heq]
        exact htrack
    · intro drv hdrv
      by_cases heq : drv = d.currentDrive
      · subst heq
        rw [hhead, setAt_self]
        exact hrange
      · rw [hhead, setAt_of_ne heq]
        exact h.head drv hdrv
    · intro drv hdrv
      have hnibble := h.nibble drv hdrv
      by_cases heq : drv = d.currentDrive
      · subst heq
        rw [hdisk, setAt_self]
        exact hnibble
      · rw [hdisk, setAt_of_ne heq]
        exact hnibble
    · intro drv hdrv hne
      rw [hcur] at hne
      rw [hdisk, setAt_of_ne hne]
      exact h.motor drv hdrv hne

theorem DriveInv.adSetDrv {d : Device} (h : DriveInv d) (drv : Fin 2) :
    DriveInv (d.adSetDrv drv) where
  currentDrive := by
    have := drv.isLt
    simp only [Device.adSetDrv]
    omega
  track i hi := by
    have := h.track i hi
    simp only [Device.adSetDrv, Device.setDisk_disk, Device.setDisk_halfTrackPos]
    split_ifs <;> simp_all
  head := h.head
  nibble i hi := by
    have := h.nibble i hi
    simp only [Device.adSetDrv, Device.setDisk_disk]
    split_ifs <;> simp_all
  motor i hi hne := by
    have hne' : i ≠ drv := hne
    have hother : i = Device.otherDrive drv := by
      have := drv.isLt
      rw [Device.otherDrive]
      split_ifs <;> omega
    simp [Device.adSetDrv, hother]

theorem DriveInv.shiftLatch {d : Device} (h : DriveInv d) : DriveInv d.shiftLatch := by
  have hturn : ∀ d : Device, DriveInv d → DriveInv (d.setDisk d.currentDrive fun f =>
      { f with nibble := BitVec.ofNat 16 ((f.nibble.toNat + 1) % TRACK_SIZE) }) := by
    intro d h
    refine h.setDisk (fun _ => rfl) fun g _ => ?_
    simp only [BitVec.toNat_ofNat, TRACK_SIZE]
    omega
  by_cases hmode : (d.disk d.currentDrive).writeMode
  · have hdata : DriveInv (d.setDisk d.currentDrive fun f =>
        { f with data := setAt f.data d.latchIndex d.dLatch }) :=
      h.setDisk (fun _ => rfl) fun _ hg => hg
    simp only [Device.shiftLatch, if_pos hmode]
    exact hturn _ hdata
  · have hlatch : DriveInv { d with
        dLatch := (d.disk d.currentDrive).data d.latchIndex } :=
      ⟨h.currentDrive, h.track, h.head, h.nibble, h.motor⟩
    simp only [Device.shiftLatch, if_neg hmode]
    exact hturn _ hlatch

/-- The motor of the selected drive is free to change. -/
theorem DriveInv.setMotor {d : Device} (h : DriveInv d) (on : Bool) :
    DriveInv (d.setDisk d.currentDrive fun f => { f with motorOn := on }) :=
  h.setDisk (fun _ => rfl) fun _ hg => hg

theorem DriveInv.setWriteMode {d : Device} (h : DriveInv d) (on : Bool) :
    DriveInv (d.setDisk d.currentDrive fun f => { f with writeMode := on }) :=
  h.setDisk (fun _ => rfl) fun _ hg => hg

/-- Every soft switch keeps the invariant. -/
theorem switch_driveInv {m : Machine} (h : DriveInv m.device) (address : WORD)
    (value : BYTE) (WRT : Bool) (sw : SoftSwitch) :
    DriveInv (m.switch address value WRT sw).2.device := by
  cases sw with
  | moveHead => exact h.adStepMotor address
  | motorOff => exact h.setMotor false
  | motorOn => exact h.setMotor true
  | drive drv => exact h.adSetDrv drv
  | shiftLatch => exact h.shiftLatch
  | latchForRead => exact h.setWriteMode false
  | latchForWrite => exact h.setWriteMode true
  | paddle pdl =>
      simp only [Machine.switch, Device.adReadPaddle]
      split_ifs
      all_goals exact ⟨h.currentDrive, h.track, h.head, h.nibble, h.motor⟩
  | _ => exact ⟨h.currentDrive, h.track, h.head, h.nibble, h.motor⟩

/-- Every access keeps the invariant. -/
theorem access_driveInv (m : Machine) (a : MemAccess) (h : DriveInv m.device) :
    DriveInv (m.access a).device :=
  Machine.access_device_inv h fun value WRT sw _ => switch_driveInv h a.address value WRT sw

/-! ### Resets and disk changes -/

/-- A step of the run of the drive controller: an access of the processor, a reset, or a
disk put into one of the two drives. -/
inductive DriveOp
  | access (a : MemAccess)
  | reset
  | insert (drv : Fin 2)
deriving DecidableEq, Repr

/-- The emulator after a step. -/
def driveStep (images : Images) (x : Cpu × Machine) : DriveOp → Cpu × Machine
  | .access a => (x.1, x.2.access a)
  | .reset => Machine.machineReset images x
  | .insert drv => (x.1, x.2.setDevice (Device.adInsertFloppy images.rawData drv))

/-- A step that leaves no copy behind: at a reset both heads stand on track 0 and the
motor of drive 1 is off, at a disk change both heads stand on half track 0. -/
def DriveOp.Safe (x : Cpu × Machine) : DriveOp → Prop
  | .access _ => True
  | .reset =>
      (x.2.device.disk 0).track = 0 ∧ (x.2.device.disk 1).track = 0 ∧
        (x.2.device.disk 1).motorOn = false
  | .insert _ => x.2.device.halfTrackPos 0 = 0 ∧ x.2.device.halfTrackPos 1 = 0

/-- `ad_Reset` clears the head positions and selects drive 0; the tracks and the motors
stay. -/
theorem adReset_driveInv_iff {d : Device} (h : DriveInv d) :
    DriveInv d.adReset ↔
      (d.disk 0).track = 0 ∧ (d.disk 1).track = 0 ∧ (d.disk 1).motorOn = false := by
  constructor
  · intro hr
    have h0 := hr.track 0 (by omega)
    have h1 := hr.track 1 (by omega)
    simp only [Device.adReset] at h0 h1
    refine ⟨?_, ?_, hr.motor 1 (by omega) (by simp [Device.adReset])⟩
    · exact BitVec.eq_of_toNat_eq (by simpa using h0)
    · exact BitVec.eq_of_toNat_eq (by simpa using h1)
  · rintro ⟨h0, h1, hmotor⟩
    constructor
    · exact .inl rfl
    · intro drv hdrv
      interval_cases drv
      · simp [Device.adReset, h0]
      · simp [Device.adReset, h1]
    · intro drv _
      simp [Device.adReset]
    · exact h.nibble
    · intro drv hdrv hne
      interval_cases drv
      · exact absurd rfl hne
      · exact hmotor

/-- `ad_InsertFloppy` clears both drives; the head positions stay. -/
theorem adInsertFloppy_driveInv_iff {d : Device} (h : DriveInv d) (rawData : ℕ → BYTE)
    (drv : Fin 2) :
    DriveInv (d.adInsertFloppy rawData drv) ↔
      d.halfTrackPos 0 = 0 ∧ d.halfTrackPos 1 = 0 := by
  have hempty : ∀ i < 2, d.adResetFloppy.disk i = FloppyDrive.zero := by
    intro i hi
    interval_cases i <;> rfl
  have hzero : ∀ i < 2, ((d.adInsertFloppy rawData drv).disk i).track = 0 ∧
      ((d.adInsertFloppy rawData drv).disk i).nibble = 0 ∧
      ((d.adInsertFloppy rawData drv).disk i).motorOn = false := by
    intro i hi
    rw [Device.adInsertFloppy, Device.setDisk_disk, hempty i hi, hempty drv drv.isLt]
    split_ifs <;> exact ⟨rfl, rfl, rfl⟩
  have hhead : (d.adInsertFloppy rawData drv).halfTrackPos = d.halfTrackPos := rfl
  constructor
  · intro hr
    have h0 := hr.track 0 (by omega)
    have h1 := hr.track 1 (by omega)
    have hr0 := h.head 0 (by omega)
    have hr1 := h.head 1 (by omega)
    rw [hhead, (hzero 0 (by omega)).1] at h0
    rw [hhead, (hzero 1 (by omega)).1] at h1
    have hbyte : ((0 : BYTE).toNat : ℤ) = 0 := rfl
    omega
  · rintro ⟨h0, h1⟩
    constructor
    · exact h.currentDrive
    · intro i hi
      rw [(hzero i hi).1, hhead]
      interval_cases i
      · simp [h0]
      · simp [h1]
    · exact h.head
    · intro i hi
      rw [(hzero i hi).2.1]
      decide
    · intro i hi _
      exact (hzero i hi).2.2

/-- A step from a state with the invariant keeps it exactly when it is safe. -/
theorem driveStep_driveInv_iff (images : Images) (x : Cpu × Machine) (op : DriveOp)
    (h : DriveInv x.2.device) :
    DriveInv (driveStep images x op).2.device ↔ op.Safe x := by
  cases op with
  | access a => exact iff_of_true (access_driveInv x.2 a h) trivial
  | reset =>
      rw [driveStep, Machine.machineReset_device]
      exact adReset_driveInv_iff h
  | insert drv => exact adInsertFloppy_driveInv_iff h images.rawData drv

/-- The emulator starts with the invariant. -/
theorem machineInitMachine_driveInv (images : Images) (x : Cpu × Machine) :
    DriveInv (Machine.machineInitMachine images x).2.device := by
  rw [Machine.machineInitMachine_device]
  have hstart : DriveInv x.2.device.adResetFloppy.adCreate := by
    constructor
    · exact .inl rfl
    · intro drv hdrv
      interval_cases drv <;> rfl
    · intro drv _
      exact (by decide : (0 : ℤ) ≤ 0 ∧ (0 : ℤ) ≤ 140)
    · intro drv hdrv
      interval_cases drv <;> exact (by decide : 0 < TRACK_SIZE)
    · intro drv hdrv _
      interval_cases drv <;> rfl
  have hinsert := (adInsertFloppy_driveInv_iff hstart images.rawData 0).mpr ⟨rfl, rfl⟩
  exact (adReset_driveInv_iff hinsert).mpr ⟨rfl, rfl, rfl⟩

/-- With the invariant the data latch is inside the image exactly when the head is. -/
theorem latchIndex_lt_iff {d : Device} (h : DriveInv d) :
    d.latchIndex < DISK_SIZE ↔ d.halfTrackPos d.currentDrive ≤ 68 := by
  have hcur : d.currentDrive < 2 := by
    rcases h.currentDrive with h0 | h1 <;> omega
  have htrack := h.track _ hcur
  have hhead := h.head _ hcur
  have hnibble := h.nibble _ hcur
  simp only [Device.latchIndex, DISK_SIZE, TRACK_SIZE] at *
  omega

/-- **Over a run of accesses, every access to the data latch is inside the disk image
exactly when the head is not past half track 68 at any of them.** -/
theorem latch_in_image_iff (images : Images) (x : Cpu × Machine) (l : List MemAccess) :
    Along Machine.access (fun m a => a.address = 0xC0EC → m.device.latchIndex < DISK_SIZE)
      (Machine.machineInitMachine images x).2 l ↔
    Along Machine.access
      (fun m a => a.address = 0xC0EC →
        m.device.halfTrackPos m.device.currentDrive ≤ 68)
      (Machine.machineInitMachine images x).2 l := by
  refine Along.congr_of_inv (I := fun m => DriveInv m.device) access_driveInv ?_ l
    (machineInitMachine_driveInv images x)
  intro m a h
  rw [latchIndex_lt_iff h]

/-- Step `n` of a seek away from track 0: the phase is switched on, and off again. -/
def seekStep (n : ℕ) : List MemAccess :=
  [.read (0xC0E1 + 2 * BitVec.ofNat 16 (n % 4)), .read (0xC0E0 + 2 * BitVec.ofNat 16 (n % 4))]

theorem seek_latchIndex : ¬ (((List.range 70).flatMap seekStep).foldl Machine.access
    (Machine.machineInitMachine .blank (.initial, .initial)).2).device.latchIndex <
      DISK_SIZE := by
  decide +kernel

/-- After 70 steps the head stands on track 35, and the next access to the data latch
reads the cell behind the image. -/
theorem seek_leaves_image :
    ¬ Along Machine.access (fun m a => a.address = 0xC0EC → m.device.latchIndex < DISK_SIZE)
      (Machine.machineInitMachine .blank (.initial, .initial)).2
      ((List.range 70).flatMap seekStep ++ [.read 0xC0EC]) :=
  fun h => seek_latchIndex (along_iff_forall_step.mp h _ _ [] rfl rfl)

/-! ### Indices

The heads and the tracks may fall apart, but no step takes an index of the controller out
of its array. -/

theorem IndexInv.setDisk {d : Device} (h : IndexInv d) (drv : ℕ)
    {f : FloppyDrive → FloppyDrive}
    (hnibble : ∀ g : FloppyDrive, g.nibble.toNat < TRACK_SIZE →
      (f g).nibble.toNat < TRACK_SIZE) (hdrv : drv < 2) : IndexInv (d.setDisk drv f) where
  currentDrive := h.currentDrive
  pIdx := h.pIdx
  pIdxB := h.pIdxB
  nibble i hi := by
    rw [Device.setDisk_disk]
    split_ifs
    · exact hnibble _ (h.nibble drv hdrv)
    · exact h.nibble i hi

theorem IndexInv.setMotor {d : Device} (h : IndexInv d) (on : Bool) :
    IndexInv (d.setDisk d.currentDrive fun f => { f with motorOn := on }) :=
  h.setDisk _ (fun _ hg => hg) h.currentDrive

theorem IndexInv.setWriteMode {d : Device} (h : IndexInv d) (on : Bool) :
    IndexInv (d.setDisk d.currentDrive fun f => { f with writeMode := on }) :=
  h.setDisk _ (fun _ hg => hg) h.currentDrive

theorem toNat_phase (address : WORD) : ((address &&& 7) >>> 1).toNat < 4 := by
  rw [BitVec.toNat_ushiftRight, BitVec.toNat_and, Nat.shiftRight_eq_div_pow]
  have hle : address.toNat &&& 7 ≤ 7 := Nat.and_le_right
  change (address.toNat &&& 7) / 2 ^ 1 < 4
  omega

theorem IndexInv.adStepMotor {d : Device} (h : IndexInv d) (address : WORD) :
    IndexInv (d.adStepMotor address) := by
  have hcur := adStepMotor_currentDrive address d
  have hpIdx : (d.adStepMotor address).pIdx =
      setAt d.pIdx d.currentDrive ((address &&& 7) >>> 1).toNat := by
    simp only [Device.adStepMotor]
    split_ifs <;> rfl
  have hpIdxB : (d.adStepMotor address).pIdxB =
      setAt d.pIdxB d.currentDrive (d.pIdx d.currentDrive) := by
    simp only [Device.adStepMotor]
    split_ifs <;> rfl
  constructor
  · rw [hcur]
    exact h.currentDrive
  · intro drv hdrv
    rw [hpIdx, setAt_apply]
    split_ifs
    · exact toNat_phase address
    · exact h.pIdx drv hdrv
  · intro drv hdrv
    rw [hpIdxB, setAt_apply]
    split_ifs
    · exact h.pIdx _ h.currentDrive
    · exact h.pIdxB drv hdrv
  · intro drv hdrv
    rcases adStepMotor_cases address d with ⟨-, hdisk⟩ | ⟨p, -, -, hdisk⟩
    · rw [hdisk]
      exact h.nibble drv hdrv
    · rw [hdisk, setAt_apply]
      split_ifs
      · exact h.nibble _ h.currentDrive
      · exact h.nibble drv hdrv

theorem IndexInv.adSetDrv {d : Device} (h : IndexInv d) (drv : Fin 2) :
    IndexInv (d.adSetDrv drv) := by
  have hother : Device.otherDrive drv < 2 := by
    rw [Device.otherDrive]
    split_ifs <;> omega
  have hmotors := (h.setDisk drv (f := fun f =>
      { f with motorOn := (d.disk (Device.otherDrive drv)).motorOn || f.motorOn })
    (fun _ hg => hg) drv.isLt).setDisk (Device.otherDrive drv)
      (f := fun f => { f with motorOn := false }) (fun _ hg => hg) hother
  exact ⟨drv.isLt, hmotors.pIdx, hmotors.pIdxB, hmotors.nibble⟩

theorem IndexInv.shiftLatch {d : Device} (h : IndexInv d) : IndexInv d.shiftLatch := by
  have hdata : IndexInv (if (d.disk d.currentDrive).writeMode then
      d.setDisk d.currentDrive fun f => { f with data := setAt f.data d.latchIndex d.dLatch }
      else { d with dLatch := (d.disk d.currentDrive).data d.latchIndex }) := by
    split_ifs
    · exact h.setDisk _ (fun _ hg => hg) h.currentDrive
    · exact ⟨h.currentDrive, h.pIdx, h.pIdxB, h.nibble⟩
  have hturn := hdata.setDisk d.currentDrive (f := fun f =>
      { f with nibble := BitVec.ofNat 16 ((f.nibble.toNat + 1) % TRACK_SIZE) })
    (fun g _ => by simp only [BitVec.toNat_ofNat, TRACK_SIZE]; omega) h.currentDrive
  exact hturn

/-- Every access keeps the indices in their arrays. -/
theorem access_indexInv (m : Machine) (a : MemAccess) (h : IndexInv m.device) :
    IndexInv (m.access a).device := by
  refine Machine.access_device_inv h fun value WRT sw _ => ?_
  cases sw with
  | moveHead => exact h.adStepMotor a.address
  | motorOff => exact h.setMotor false
  | motorOn => exact h.setMotor true
  | latchForRead => exact h.setWriteMode false
  | latchForWrite => exact h.setWriteMode true
  | drive drv => exact h.adSetDrv drv
  | shiftLatch => exact h.shiftLatch
  | paddle pdl =>
      simp only [Machine.switch, Device.adReadPaddle]
      split_ifs
      all_goals exact ⟨h.currentDrive, h.pIdx, h.pIdxB, h.nibble⟩
  | _ => exact ⟨h.currentDrive, h.pIdx, h.pIdxB, h.nibble⟩

/-- Every step of the controller keeps the indices in their arrays, safe or not. -/
theorem driveStep_indexInv (images : Images) (x : Cpu × Machine) (op : DriveOp)
    (h : IndexInv x.2.device) : IndexInv (driveStep images x op).2.device := by
  cases op with
  | access a => exact access_indexInv x.2 a h
  | reset =>
      rw [driveStep, Machine.machineReset_device]
      exact ⟨(by decide : 0 < 2), fun _ _ => (by decide : 0 < 4),
        fun _ _ => (by decide : 0 < 4), h.nibble⟩
  | insert drv =>
      have hempty : IndexInv x.2.device.adResetFloppy := by
        refine ⟨h.currentDrive, h.pIdx, h.pIdxB, fun i hi => ?_⟩
        interval_cases i <;> exact (by decide : 0 < TRACK_SIZE)
      have hdata := hempty.setDisk drv (f := fun f =>
        { f with data := fun i => if i < DISK_SIZE then images.rawData i else f.data i })
        (fun _ hg => hg) drv.isLt
      exact hdata

theorem DriveInv.indexInv {d : Device} (h : DriveInv d) (hpIdx : ∀ drv < 2, d.pIdx drv < 4)
    (hpIdxB : ∀ drv < 2, d.pIdxB drv < 4) : IndexInv d where
  currentDrive := by
    rcases h.currentDrive with h0 | h1 <;> omega
  pIdx := hpIdx
  pIdxB := hpIdxB
  nibble := h.nibble

theorem machineInitMachine_indexInv (images : Images) (x : Cpu × Machine) :
    IndexInv (Machine.machineInitMachine images x).2.device := by
  refine (machineInitMachine_driveInv images x).indexInv ?_ ?_
  · rw [Machine.machineInitMachine_device]
    exact fun _ _ => (by decide : 0 < 4)
  · rw [Machine.machineInitMachine_device]
    exact fun _ _ => (by decide : 0 < 4)

/-- In every state of a run from the start, whatever the steps are, the indices are in
their arrays. -/
theorem indexInv_reachable (images : Images) (x : Cpu × Machine) (l : List DriveOp) :
    IndexInv (l.foldl (driveStep images) (Machine.machineInitMachine images x)).2.device :=
  foldl_inv (I := fun y : Cpu × Machine => IndexInv y.2.device)
    (driveStep_indexInv images) l
    (machineInitMachine_indexInv images x)

end B2OS
