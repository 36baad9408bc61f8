import B2OS.Apple2.Device
import B2OS.Apple2.Run

/-!
# The Emulated Apple II

This module embeds `Apple2/AppleMem.c` (the memory with its language card), the soft
switches of `Apple2/AppleDevice.c` and the operations of `Apple2/AppleMachine.c`.

An access to memory is decoded by its address alone: RAM below $C000, ROM or the language
card from $D000 on, the disk controller's PROM at $C600, and the soft switches in the rest
of $C000-$CFFF. Every storage array is indexed by `Fin` of its size, so a decoder that
picks a cell carries the proof that the cell exists.

The arrays `appleIIrom`, `diskII` and `rawData` are the contents of files that the
emulator is built with. They are the parameter `Images`.
-/

namespace B2OS

def RAMSIZE : ℕ := 0xC000
def ROMSIZE : ℕ := 0x3000
def ROMSTART : ℕ := 0xD000
def SL6START : ℕ := 0xC600
def SL6SIZE : ℕ := 0x0100
def LGCSTART : ℕ := 0xD000
def LGCSIZE : ℕ := 0x3000
def BK2START : ℕ := 0xD000
def BK2SIZE : ℕ := 0x1000

/-- The globals of `AppleMem.c`. -/
structure AppleMem where
  LCWritable : Bool
  LCReadable : Bool
  LCBank2Enable : Bool
  LCPreWriteFlipflop : Bool
  ram : Fin RAMSIZE → BYTE
  rom : Fin ROMSIZE → BYTE
  lgc : Fin LGCSIZE → BYTE
  bk2 : Fin BK2SIZE → BYTE
  sl6 : Fin SL6SIZE → BYTE

/-- Memory, devices and the tick counter: all of the emulator but the registers. -/
structure Machine where
  mem : AppleMem
  device : Device
  cpu_tick : ULONG

/-- The files that the emulator is built with. -/
structure Images where
  appleIIrom : Fin ROMSIZE → BYTE
  diskII : Fin SL6SIZE → BYTE
  rawData : ℕ → BYTE

/-! ### Memory -/

/-- The memory as `mem_Reset` leaves it. -/
def AppleMem.memReset : AppleMem where
  LCWritable := true
  LCReadable := false
  LCBank2Enable := true
  LCPreWriteFlipflop := false
  ram := fun _ => 0
  rom := fun _ => 0
  lgc := fun _ => 0
  bk2 := fun _ => 0
  sl6 := fun _ => 0

def AppleMem.memResetRam (m : AppleMem) : AppleMem := { m with ram := fun _ => 0 }

/-- The globals as the program is loaded; those of `AppleMem.c` have initializers. -/
def Machine.initial : Machine where
  mem := { LCWritable := true
           LCReadable := false
           LCBank2Enable := true
           LCPreWriteFlipflop := false
           ram := fun _ => 0
           rom := fun _ => 0
           lgc := fun _ => 0
           bk2 := fun _ => 0
           sl6 := fun _ => 0 }
  device := .initial
  cpu_tick := 0

/-- Files of zeros. -/
def Images.blank : Images := ⟨fun _ => 0, fun _ => 0, fun _ => 0⟩

/-! ### Soft switches -/

/-- The cases of `ad_SoftSwitch`, under the names of its comments. -/
inductive SoftSwitch
  | keyboard | keyboardStrobe | tapeOut | speaker
  | textOff | textOn | mixedOff | mixedOn | page1 | page2 | hiResOff | hiResOn
  | pushButton | paddle (pdl : Fin 2) | paddleReset
  | moveHead | motorOff | motorOn | drive (drv : Fin 2)
  | shiftLatch | loadLatch | latchForRead | latchForWrite
  | LC2RD | LC2WR | ROMONLY2 | LC2RW | LC1RD | LC1WR | ROMONLY1 | LC1RW
deriving DecidableEq, Repr

/-- The case labels of `ad_SoftSwitch`; `none` is an address without a case. -/
def SoftSwitch.ofAddress (address : WORD) : Option SoftSwitch :=
  match address.toNat with
  | 0xC000 => some .keyboard
  | 0xC010 => some .keyboardStrobe
  | 0xC020 => some .tapeOut
  | 0xC030 => some .speaker
  | 0xC050 => some .textOff
  | 0xC051 => some .textOn
  | 0xC052 => some .mixedOff
  | 0xC053 => some .mixedOn
  | 0xC054 => some .page1
  | 0xC055 => some .page2
  | 0xC056 => some .hiResOff
  | 0xC057 => some .hiResOn
  | 0xC061 | 0xC062 => some .pushButton
  | 0xC064 => some (.paddle 0)
  | 0xC065 => some (.paddle 1)
  | 0xC070 => some .paddleReset
  | 0xC0E0 | 0xC0E1 | 0xC0E2 | 0xC0E3 | 0xC0E4 | 0xC0E5 | 0xC0E6 | 0xC0E7 => some .moveHead
  | 0xCFFF | 0xC0E8 => some .motorOff
  | 0xC0E9 => some .motorOn
  | 0xC0EA => some (.drive 0)
  | 0xC0EB => some (.drive 1)
  | 0xC0EC => some .shiftLatch
  | 0xC0ED => some .loadLatch
  | 0xC0EE => some .latchForRead
  | 0xC0EF => some .latchForWrite
  | 0xC080 | 0xC084 => some .LC2RD
  | 0xC081 | 0xC085 => some .LC2WR
  | 0xC082 | 0xC086 => some .ROMONLY2
  | 0xC083 | 0xC087 => some .LC2RW
  | 0xC088 | 0xC08C => some .LC1RD
  | 0xC089 | 0xC08D => some .LC1WR
  | 0xC08A | 0xC08E => some .ROMONLY1
  | 0xC08B | 0xC08F => some .LC1RW
  | _ => none

namespace Machine

def setDevice (m : Machine) (f : Device → Device) : Machine :=
  { m with device := f m.device }

/-- The machine with the devices `d`. -/
def withDevice (m : Machine) (d : Device) : Machine := { m with device := d }

/-- The value of a soft switch without one of its own: `cpu_tick % 256`. -/
def floatingBus (m : Machine) : BYTE := m.cpu_tick.setWidth 8

/-- `LCBank2Enable = bank2; LCReadable = readable; LCWritable = 0; LCPreWriteFlipflop = 0`. -/
def lcProtect (bank2 readable : Bool) (m : Machine) : Machine :=
  { m with mem := { m.mem with
      LCBank2Enable := bank2
      LCReadable := readable
      LCWritable := false
      LCPreWriteFlipflop := false } }

/-- `LCBank2Enable = bank2; LCReadable = readable; LCWritable |= LCPreWriteFlipflop;
LCPreWriteFlipflop = !WRT`. -/
def lcPreWrite (bank2 readable WRT : Bool) (m : Machine) : Machine :=
  { m with mem := { m.mem with
      LCBank2Enable := bank2
      LCReadable := readable
      LCWritable := m.mem.LCWritable || m.mem.LCPreWriteFlipflop
      LCPreWriteFlipflop := !WRT } }

/-- The cases of `ad_SoftSwitch`: the value returned, or `none` when the case breaks, and
the machine left. -/
def switch (address : WORD) (value : BYTE) (WRT : Bool) (m : Machine) :
    SoftSwitch → Option BYTE × Machine
  | .keyboard => (some m.device.keyboard, m)
  | .keyboardStrobe =>
      let m := m.setDevice fun d => { d with keyboard := d.keyboard &&& 0x7F }
      (some m.device.keyboard, m)
  | .tapeOut => (none, m)
  | .speaker => (none, m)
  | .textOff => (none, m.setDevice fun d => { d with textMode := false })
  | .textOn => (none, m.setDevice fun d => { d with textMode := true })
  | .mixedOff => (none, m.setDevice fun d => { d with mixedMode := false })
  | .mixedOn => (none, m.setDevice fun d => { d with mixedMode := true })
  | .page1 => (none, m.setDevice fun d => { d with videoPage := 1 })
  | .page2 => (none, m.setDevice fun d => { d with videoPage := 2 })
  | .hiResOff => (none, m.setDevice fun d => { d with hires_Mode := false })
  | .hiResOn => (none, m.setDevice fun d => { d with hires_Mode := true })
  | .pushButton => (some 0, m)
  | .paddle pdl =>
      let (v, d) := m.device.adReadPaddle m.cpu_tick pdl
      (some v, { m with device := d })
  | .paddleReset => (none, m.setDevice (Device.adResetPaddles m.cpu_tick))
  | .moveHead => (none, m.setDevice (Device.adStepMotor address))
  | .motorOff =>
      (none, m.setDevice fun d =>
        d.setDisk d.currentDrive fun f => { f with motorOn := false })
  | .motorOn =>
      (none, m.setDevice fun d =>
        d.setDisk d.currentDrive fun f => { f with motorOn := true })
  | .drive drv => (none, m.setDevice (Device.adSetDrv drv))
  | .shiftLatch =>
      let m := m.setDevice Device.shiftLatch
      (some m.device.dLatch, m)
  | .loadLatch => (none, m.setDevice fun d => { d with dLatch := value })
  | .latchForRead =>
      let m := m.setDevice fun d =>
        d.setDisk d.currentDrive fun f => { f with writeMode := false }
      (some (if (m.device.disk m.device.currentDrive).readOnly then 0x80 else 0), m)
  | .latchForWrite =>
      (none, m.setDevice fun d =>
        d.setDisk d.currentDrive fun f => { f with writeMode := true })
  | .LC2RD => (none, m.lcProtect true true)
  | .LC2WR => (none, m.lcPreWrite true false WRT)
  | .ROMONLY2 => (none, m.lcProtect true false)
  | .LC2RW => (none, m.lcPreWrite true true WRT)
  | .LC1RD => (none, m.lcProtect false true)
  | .LC1WR => (none, m.lcPreWrite false false WRT)
  | .ROMONLY1 => (none, m.lcProtect false false)
  | .LC1RW => (none, m.lcPreWrite false true WRT)

def adSoftSwitch (address : WORD) (value : BYTE) (WRT : Bool) (m : Machine) :
    BYTE × Machine :=
  match SoftSwitch.ofAddress address with
  | some sw =>
      let (v, m) := m.switch address value WRT sw
      (v.getD m.floatingBus, m)
  | none => (m.floatingBus, m)

/-! ### The address decoders -/

def memReadByte (address : WORD) (m : Machine) : BYTE × Machine :=
  let a := address.toNat
  if hram : a < RAMSIZE then (m.mem.ram ⟨a, hram⟩, m)
  else if hrom : ROMSTART ≤ a then
    have ha : a < 0x10000 := address.isLt
    if !m.mem.LCReadable then
      (m.mem.rom ⟨a - ROMSTART, by simp only [ROMSTART, ROMSIZE] at *; omega⟩, m)
    else if hbk2 : m.mem.LCBank2Enable ∧ a < 0xE000 then
      (m.mem.bk2 ⟨a - BK2START, by simp only [BK2START, BK2SIZE] at *; omega⟩, m)
    else (m.mem.lgc ⟨a - LGCSTART, by simp only [LGCSTART, LGCSIZE] at *; omega⟩, m)
  else if hsl6 : SL6START ≤ a ∧ a < SL6START + SL6SIZE then
    (m.mem.sl6 ⟨a - SL6START, by omega⟩, m)
  else if address &&& 0xF000 = 0xC000 then m.adSoftSwitch address 0 false
  else (0, m)

def memWriteByte (address : WORD) (value : BYTE) (m : Machine) : Machine :=
  let a := address.toNat
  if hram : a < RAMSIZE then
    { m with mem := { m.mem with
        ram := fun i => if i = ⟨a, hram⟩ then value else m.mem.ram i } }
  else if hrom : m.mem.LCWritable ∧ ROMSTART ≤ a then
    have ha : a < 0x10000 := address.isLt
    if hbk2 : m.mem.LCBank2Enable ∧ a < 0xE000 then
      have hi : a - BK2START < BK2SIZE := by simp only [BK2START, BK2SIZE] at *; omega
      { m with mem := { m.mem with
          bk2 := fun i => if i = ⟨a - BK2START, hi⟩ then value else m.mem.bk2 i } }
    else
      have hi : a - LGCSTART < LGCSIZE := by simp only [LGCSTART, LGCSIZE] at *; omega
      { m with mem := { m.mem with
          lgc := fun i => if i = ⟨a - LGCSTART, hi⟩ then value else m.mem.lgc i } }
  else if address &&& 0xF000 = 0xC000 then (m.adSoftSwitch address value true).2
  else m

/-- The memory of the machine, as the processor sees it. -/
def bus : Bus WORD BYTE Machine where
  read := memReadByte
  write := memWriteByte

/-! ### Reset and start

These work on the registers and the machine together. -/

/-- A computation of the processor on the machine. -/
def runAc (p : AcM Unit) (x : Cpu × Machine) : Cpu × Machine :=
  let o := (p.run x.1).exec bus x.2
  (o.val.2, o.state)

def acInit (x : Cpu × Machine) : Cpu × Machine :=
  (acReset0, { x.2 with cpu_tick := 0 })

def acReboot (x : Cpu × Machine) : Cpu × Machine :=
  let (c, m) := x
  let m := m.memWriteByte 0x3F4 0
  let (lo, m) := m.memReadByte 0xFFFC
  let (hi, m) := m.memReadByte 0xFFFD
  let c := { c with
    PC := mkWord lo hi
    SP := 0xFD
    PS := { c.PS with I := true, Unused := true } }
  (c, { m with mem := m.mem.memResetRam })

/-- The three bytes that `machine_InitMachine` and `machine_Reset` write. -/
def writePowerUp (m : Machine) : Machine :=
  ((m.memWriteByte 0x3F4 0).memWriteByte 0x4D 0xAA).memWriteByte 0xD0 0xAA

def machineBooting (images : Images) (x : Cpu × Machine) : Cpu × Machine :=
  let mem := { x.2.mem with rom := images.appleIIrom, sl6 := images.diskII }
  runAc acReset (x.1, { x.2 with mem := mem })

def machineReset (images : Images) (x : Cpu × Machine) : Cpu × Machine :=
  let x := acReboot (x.1, { x.2 with mem := .memReset })
  machineBooting images (x.1, (x.2.setDevice Device.adReset).writePowerUp)

def machineInitMachine (images : Images) (x : Cpu × Machine) : Cpu × Machine :=
  let (c, m) := acInit x
  let m := { m with mem := .memReset }
  let m := (m.setDevice Device.adResetFloppy).writePowerUp
  let m := m.setDevice Device.adCreate
  machineReset images (c, m.setDevice (Device.adInsertFloppy images.rawData 0))

/-! ### What an access leaves alone -/

/-- The storage arrays of two memories agree; their soft switches may differ. -/
structure SameStorage (m m' : Machine) : Prop where
  ram : m'.mem.ram = m.mem.ram
  rom : m'.mem.rom = m.mem.rom
  lgc : m'.mem.lgc = m.mem.lgc
  bk2 : m'.mem.bk2 = m.mem.bk2
  sl6 : m'.mem.sl6 = m.mem.sl6

@[refl] theorem SameStorage.refl (m : Machine) : SameStorage m m := ⟨rfl, rfl, rfl, rfl, rfl⟩

theorem switch_sameStorage (m : Machine) (address : WORD) (value : BYTE) (WRT : Bool)
    (sw : SoftSwitch) : SameStorage m (m.switch address value WRT sw).2 := by
  cases sw <;> exact ⟨rfl, rfl, rfl, rfl, rfl⟩

/-- A soft switch changes no storage. -/
theorem adSoftSwitch_sameStorage (m : Machine) (address : WORD) (value : BYTE)
    (WRT : Bool) : SameStorage m (m.adSoftSwitch address value WRT).2 := by
  rw [adSoftSwitch]
  cases SoftSwitch.ofAddress address with
  | none => exact .refl m
  | some sw => exact m.switch_sameStorage address value WRT sw

/-- A read changes no storage. -/
theorem memReadByte_sameStorage (m : Machine) (address : WORD) :
    SameStorage m (m.memReadByte address).2 := by
  rw [memReadByte]
  split_ifs
  case pos => exact .refl m
  case pos => exact .refl m
  case pos => exact .refl m
  case neg => exact .refl m
  case pos => exact .refl m
  case pos => exact m.adSoftSwitch_sameStorage address 0 false
  case neg => exact .refl m

/-! ### What the resets leave -/

theorem memWriteByte_of_lt (m : Machine) {address : WORD} (value : BYTE)
    (h : address.toNat < RAMSIZE) :
    m.memWriteByte address value = { m with mem := { m.mem with
      ram := fun i => if i = ⟨address.toNat, h⟩ then value else m.mem.ram i } } := by
  rw [memWriteByte, dif_pos h]

/-- A read from $D000 on leaves the machine as it is. -/
theorem memReadByte_state (m : Machine) {address : WORD} (h : ROMSTART ≤ address.toNat) :
    (m.memReadByte address).2 = m := by
  have hram : ¬ address.toNat < RAMSIZE := by
    simp only [ROMSTART, RAMSIZE] at *
    omega
  simp only [memReadByte, dif_neg hram, dif_pos h]
  split_ifs <;> rfl

@[simp] theorem writePowerUp_device (m : Machine) : m.writePowerUp.device = m.device := by
  simp only [writePowerUp]
  repeat rw [memWriteByte_of_lt _ _ (by decide)]

@[simp] theorem acReboot_device (x : Cpu × Machine) :
    (acReboot x).2.device = x.2.device := by
  have hlo : ROMSTART ≤ (0xFFFC : WORD).toNat := by decide
  have hhi : ROMSTART ≤ (0xFFFD : WORD).toNat := by decide
  simp only [acReboot, memReadByte_state _ hlo, memReadByte_state _ hhi]
  rw [memWriteByte_of_lt _ _ (by decide)]

/-- The reset vector lies in ROM, so fetching it leaves the machine as it is. -/
theorem runAc_acReset_state (x : Cpu × Machine) : (runAc acReset x).2 = x.2 := by
  have hlo : ROMSTART ≤ (0xFFFC : WORD).toNat := by decide
  have hhi : ROMSTART ≤ (0xFFFD : WORD).toNat := by decide
  simp only [runAc, acReset, setPC, StateT.run_bind, memReadByte_run, StateT.run_modify]
  simp only [BusProg.pure_eq, BusProg.ret_bind, BusProg.read_bind, BusProg.exec_read,
    BusProg.exec_ret, bus, memReadByte_state _ hlo, memReadByte_state _ hhi]

@[simp] theorem machineReset_device (images : Images) (x : Cpu × Machine) :
    (machineReset images x).2.device = x.2.device.adReset := by
  simp only [machineReset, machineBooting, runAc_acReset_state, writePowerUp_device,
    setDevice, acReboot_device]

theorem machineReset_rom (images : Images) (x : Cpu × Machine) :
    (machineReset images x).2.mem.rom = images.appleIIrom := by
  simp only [machineReset, machineBooting, runAc_acReset_state]

theorem machineReset_sl6 (images : Images) (x : Cpu × Machine) :
    (machineReset images x).2.mem.sl6 = images.diskII := by
  simp only [machineReset, machineBooting, runAc_acReset_state]

theorem machineInitMachine_device (images : Images) (x : Cpu × Machine) :
    (machineInitMachine images x).2.device =
      (Device.adInsertFloppy images.rawData 0
        x.2.device.adResetFloppy.adCreate).adReset := by
  simp only [machineInitMachine, acInit, machineReset_device, setDevice,
    writePowerUp_device]

end Machine

/-! ### Accesses -/

/-- A call of `mem_ReadByte` or `mem_WriteByte`. -/
inductive MemAccess
  | read (address : WORD)
  | write (address : WORD) (value : BYTE)
deriving DecidableEq, Repr

def MemAccess.address : MemAccess → WORD
  | .read address => address
  | .write address _ => address

/-- The value that an access brings to a soft switch; a read brings zero. -/
def MemAccess.value : MemAccess → BYTE
  | .read _ => 0
  | .write _ value => value

/-- `WRT`: the access is a write. -/
def MemAccess.WRT : MemAccess → Bool
  | .read _ => false
  | .write _ _ => true

namespace Machine

/-- The machine that an access leaves. -/
def access (m : Machine) : MemAccess → Machine
  | .read address => (m.memReadByte address).2
  | .write address value => m.memWriteByte address value

/-- An access leaves the devices alone or goes through the soft switches. -/
theorem access_device_or (m : Machine) (a : MemAccess) :
    (m.access a).device = m.device ∨ ∃ value WRT,
      (m.access a).device = (m.adSoftSwitch a.address value WRT).2.device := by
  cases a with
  | read address =>
      simp only [access, MemAccess.address, memReadByte]
      split_ifs <;> first | exact .inl rfl | exact .inr ⟨0, false, rfl⟩
  | write address value =>
      simp only [access, MemAccess.address, memWriteByte]
      split_ifs <;> first | exact .inl rfl | exact .inr ⟨value, true, rfl⟩

/-- What every soft switch keeps of the devices, every access keeps. -/
theorem access_device_inv {I : Device → Prop} {m : Machine} {a : MemAccess}
    (hm : I m.device)
    (hswitch : ∀ value WRT sw, SoftSwitch.ofAddress a.address = some sw →
      I (m.switch a.address value WRT sw).2.device) : I (m.access a).device := by
  rcases m.access_device_or a with h | ⟨value, WRT, h⟩
  · rwa [h]
  rw [h, adSoftSwitch]
  cases hsw : SoftSwitch.ofAddress a.address with
  | none => exact hm
  | some sw => exact hswitch value WRT sw hsw

theorem and_page (address : WORD) : address &&& (0xF000 : WORD) = address >>> 12 <<< 12 := by
  refine BitVec.eq_of_getElem_eq fun i hi => ?_
  interval_cases i <;> simp

/-- An access to $C000-$C0FF goes to the soft switches. -/
theorem access_eq_adSoftSwitch (m : Machine) {a : MemAccess} (hlo : 0xC000 ≤ a.address.toNat)
    (hhi : a.address.toNat < 0xC100) :
    m.access a = (m.adSoftSwitch a.address a.value a.WRT).2 := by
  have hpage : a.address &&& 0xF000 = 0xC000 := by
    rw [and_page]
    bv_omega
  cases a with
  | read address =>
      simp only [MemAccess.address] at hlo hhi hpage
      have hram : ¬ address.toNat < RAMSIZE := Nat.not_lt.mpr hlo
      have hrom : ¬ ROMSTART ≤ address.toNat := by
        rw [ROMSTART]
        omega
      have hsl6 : ¬ (SL6START ≤ address.toNat ∧ address.toNat < SL6START + SL6SIZE) := by
        rw [SL6START]
        omega
      simp only [access, memReadByte, dif_neg hram, dif_neg hrom, dif_neg hsl6, if_pos hpage,
        MemAccess.address, MemAccess.value, MemAccess.WRT]
  | write address value =>
      simp only [MemAccess.address] at hlo hhi hpage
      have hram : ¬ address.toNat < RAMSIZE := Nat.not_lt.mpr hlo
      have hrom : ¬ (m.mem.LCWritable ∧ ROMSTART ≤ address.toNat) := by
        rw [ROMSTART]
        omega
      simp only [access, memWriteByte, dif_neg hram, dif_neg hrom, if_pos hpage,
        MemAccess.address, MemAccess.value, MemAccess.WRT]

end Machine

end B2OS
