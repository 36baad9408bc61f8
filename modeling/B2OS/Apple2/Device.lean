import B2OS.Apple2.Cpu

/-!
# The Devices of the Emulated Apple II

This module embeds the globals of `Apple2/AppleDevice.c` and the functions that change
them without touching memory: the reset, the paddles, the stepper motor and the selection
of the disk drives, and the loading of a disk image.

An array of the source is a function of its index here. The two drives are `disk 0` and
`disk 1`; the cells of `FloppyDrive.data` from `DISK_SIZE` on are no cells of the array,
and stand for whatever an index past its end reaches.
-/

namespace B2OS

/-- The number of nibbles of a track. -/
def TRACK_SIZE : ℕ := 0x1A00

/-- The number of nibbles of a disk image, 35 tracks. -/
def DISK_SIZE : ℕ := 232960

/-- A drive with its disk. -/
structure FloppyDrive where
  readOnly : Bool
  data : ℕ → BYTE
  motorOn : Bool
  writeMode : Bool
  track : BYTE
  nibble : WORD

/-- `memset(&disk[d], 0, sizeof(struct FloppyDrive))`. -/
def FloppyDrive.zero : FloppyDrive where
  readOnly := false
  data := fun _ => 0
  motorOn := false
  writeMode := false
  track := 0
  nibble := 0

/-- `struct _RECT`. -/
structure Rect where
  x : ℤ
  y : ℤ
  width : ℤ
  height : ℤ
deriving DecidableEq, Repr

/-- The globals of `AppleDevice.c`. -/
structure Device where
  colorMonitor : Bool
  GCP : ℕ → Float32
  GCC : ℕ → Float32
  GCD : ℕ → ℤ
  GCA : ℕ → ℤ
  GCActionSpeed : BYTE
  GCReleaseSpeed : BYTE
  GCCrigger : ℤ
  currentDrive : ℕ
  textMode : Bool
  mixedMode : Bool
  hires_Mode : Bool
  videoPage : BYTE
  videoAddress : WORD
  pixelGR : Rect
  LoResCache : ℕ → ℕ → ℤ
  HiResCache : ℕ → ℕ → ℤ
  previousBit : ℕ → ℕ → BYTE
  flashCycle : BYTE
  keyboard : BYTE
  colorbuffer : ℕ → BYTE
  disk : ℕ → FloppyDrive
  updatedrive : BYTE
  phases : ℕ → ℕ → Bool
  phasesB : ℕ → ℕ → Bool
  phasesBB : ℕ → ℕ → Bool
  pIdx : ℕ → ℕ
  pIdxB : ℕ → ℕ
  halfTrackPos : ℕ → ℤ
  dLatch : BYTE

/-- The globals as the program is loaded: all of them are zero. -/
def Device.initial : Device where
  colorMonitor := false
  GCP := fun _ => 0
  GCC := fun _ => 0
  GCD := fun _ => 0
  GCA := fun _ => 0
  GCActionSpeed := 0
  GCReleaseSpeed := 0
  GCCrigger := 0
  currentDrive := 0
  textMode := false
  mixedMode := false
  hires_Mode := false
  videoPage := 0
  videoAddress := 0
  pixelGR := ⟨0, 0, 0, 0⟩
  LoResCache := fun _ _ => 0
  HiResCache := fun _ _ => 0
  previousBit := fun _ _ => 0
  flashCycle := 0
  keyboard := 0
  colorbuffer := fun _ => 0
  disk := fun _ => .zero
  updatedrive := 0
  phases := fun _ _ => false
  phasesB := fun _ _ => false
  phasesBB := fun _ _ => false
  pIdx := fun _ => 0
  pIdxB := fun _ => 0
  halfTrackPos := fun _ => 0
  dLatch := 0

/-! ### Arrays -/

section Arrays

variable {β : Type}

/-- `a[i] = v`. -/
def setAt (a : ℕ → β) (i : ℕ) (v : β) : ℕ → β := fun j => if j = i then v else a j

@[simp] theorem setAt_self (a : ℕ → β) (i : ℕ) (v : β) : setAt a i v i = v := if_pos rfl

theorem setAt_of_ne {a : ℕ → β} {i j : ℕ} {v : β} (h : j ≠ i) : setAt a i v j = a j :=
  if_neg h

theorem setAt_apply (a : ℕ → β) (i j : ℕ) (v : β) :
    setAt a i v j = if j = i then v else a j := rfl

/-- `a[i][j] = v`. -/
def setAt2 (a : ℕ → ℕ → β) (i j : ℕ) (v : β) : ℕ → ℕ → β := setAt a i (setAt (a i) j v)

theorem setAt2_apply (a : ℕ → ℕ → β) (i j : ℕ) (v : β) (i' j' : ℕ) :
    setAt2 a i j v i' j' = if i' = i ∧ j' = j then v else a i' j' := by
  rw [setAt2, setAt_apply]
  split_ifs with hi hij hij
  · rw [hij.2, setAt_self]
  · rw [hi, setAt_of_ne fun hj => hij ⟨hi, hj⟩]
  · exact absurd hij.1 hi
  · rfl

end Arrays

namespace Device

/-! ### Reset -/

def adReset (d : Device) : Device :=
  { d with
    colorMonitor := true
    keyboard := 0
    pixelGR := ⟨0, 0, 7, 4⟩
    updatedrive := 0
    currentDrive := 0
    dLatch := 0
    phases := fun _ _ => false
    phasesB := fun _ _ => false
    phasesBB := fun _ _ => false
    pIdx := fun _ => 0
    pIdxB := fun _ => 0
    halfTrackPos := fun _ => 0
    GCP := fun _ => 127
    GCC := fun _ => 0
    GCD := fun _ => 0
    GCA := fun _ => 0
    GCActionSpeed := 64
    GCReleaseSpeed := 64
    textMode := true
    mixedMode := false
    videoPage := 1
    hires_Mode := false
    LoResCache := fun _ _ => 0
    HiResCache := fun _ _ => 0
    previousBit := fun _ _ => 0
    flashCycle := 0 }

def adClearScreen (d : Device) : Device := { d with colorbuffer := fun _ => 0 }

/-- The font tables that `af_Create` builds are not part of the model. -/
def adCreate (d : Device) : Device := d.adReset.adClearScreen

/-! ### Paddles -/

def adResetPaddles (cpu_tick : ULONG) (d : Device) : Device :=
  { d with
    GCC := setAt (setAt d.GCC 0 (d.GCP 0 * d.GCP 0)) 1 (d.GCP 1 * d.GCP 1)
    GCCrigger := cpu_tick.toNat }

def adReadPaddle (cpu_tick : ULONG) (pdl : ℕ) (d : Device) : BYTE × Device :=
  let GCFreq : Float32 := 6.6
  let gcc := d.GCC pdl - Float32.ofInt (cpu_tick.toNat - d.GCCrigger) / GCFreq
  if gcc ≤ 0 then (0, { d with GCC := setAt d.GCC pdl 0 })
  else (0x80, { d with GCC := setAt d.GCC pdl gcc })

/-! ### Disk II -/

/-- `disk[drv]` with one of its fields changed. -/
def setDisk (d : Device) (drv : ℕ) (f : FloppyDrive → FloppyDrive) : Device :=
  { d with disk := setAt d.disk drv (f (d.disk drv)) }

/-- `if (--h < 0) h = 0`. -/
def headIn (h : ℤ) : ℤ := if h - 1 < 0 then 0 else h - 1

/-- `if (++h > 140) h = 140`. -/
def headOut (h : ℤ) : ℤ := if h + 1 > 140 then 140 else h + 1

def adStepMotor (address : WORD) (d : Device) : Device :=
  let address := address &&& 7
  let phase := (address >>> 1).toNat
  let cd := d.currentDrive
  let d := { d with
    phasesBB := setAt2 d.phasesBB cd (d.pIdxB cd) (d.phasesB cd (d.pIdxB cd)) }
  let d := { d with phasesB := setAt2 d.phasesB cd (d.pIdx cd) (d.phases cd (d.pIdx cd)) }
  let d := { d with pIdxB := setAt d.pIdxB cd (d.pIdx cd) }
  let d := { d with pIdx := setAt d.pIdx cd phase }
  if address &&& 1 = 0 then
    { d with phases := setAt2 d.phases cd phase false }
  else
    let h := d.halfTrackPos cd
    let h := if d.phasesBB cd ((phase + 1) % 4) then headIn h else h
    let h := if d.phasesBB cd ((phase + 3) % 4) then headOut h else h
    let d := { d with
      halfTrackPos := setAt d.halfTrackPos cd h
      phases := setAt2 d.phases cd phase true }
    d.setDisk cd fun f => { f with track := BitVec.ofInt 8 ((h + 1) / 2) }

/-- `!drv`. -/
def otherDrive (drv : ℕ) : ℕ := if drv = 0 then 1 else 0

def adSetDrv (drv : ℕ) (d : Device) : Device :=
  let d := d.setDisk drv fun f =>
    { f with motorOn := (d.disk (otherDrive drv)).motorOn || f.motorOn }
  let d := d.setDisk (otherDrive drv) fun f => { f with motorOn := false }
  { d with currentDrive := drv }

/-- The index into `disk[currentDrive].data` of an access to the data latch. -/
def latchIndex (d : Device) : ℕ :=
  let f := d.disk d.currentDrive
  f.track.toNat * TRACK_SIZE + f.nibble.toNat

/-- `case 0xC0EC`: one nibble is written or read, and the disk turns by one nibble. -/
def shiftLatch (d : Device) : Device :=
  let cd := d.currentDrive
  let i := d.latchIndex
  let d :=
    if (d.disk cd).writeMode then
      d.setDisk cd fun f => { f with data := setAt f.data i d.dLatch }
    else { d with dLatch := (d.disk cd).data i }
  d.setDisk cd fun f =>
    { f with nibble := BitVec.ofNat 16 ((f.nibble.toNat + 1) % TRACK_SIZE) }

def adUpdateFloppyDisk (d : Device) : Bool × Device :=
  if (d.disk d.currentDrive).motorOn then
    let d := { d with updatedrive := d.updatedrive + 1 }
    (d.updatedrive != 0, d)
  else (false, d)

def adResetFloppy (d : Device) : Device :=
  { d with disk := setAt (setAt d.disk 0 FloppyDrive.zero) 1 FloppyDrive.zero }

/-- `rawData` is the disk image that `ad_InsertFloppy` copies into the drive. -/
def adInsertFloppy (rawData : ℕ → BYTE) (drv : ℕ) (d : Device) : Device :=
  let d := d.adResetFloppy
  d.setDisk drv fun f =>
    { f with data := fun i => if i < DISK_SIZE then rawData i else f.data i }

end Device

end B2OS
