import B2OS.Lib.Ring
import B2OS.Apple2.Machine

/-!
# Writing and Reading a Track

A program reaches the selected disk through one latch. Every access to $C0EC moves one nibble
between the latch and the track under the head, and turns the disk by one nibble. $C0EE and
$C0EF choose the direction, and a write of $C0ED puts a value into the latch.

The track is a `Ring` in the data of the drive. `Device.turned` is a device of which only the
latch, and the mode, the position and the data of the selected drive have changed: the accesses
of a program that writes or reads stay in this form.

## Main results

* `writeNibbles_turned`, `readNibbles_turned`: what a run of writes and a run of reads leave.
* `readNibbles_writeTrack`: a sequence that was written is read back when the disk has turned
  once, and nothing else has changed.
-/

namespace B2OS

open Ring

theorem setAt_eq_update {β : Type} (a : ℕ → β) (i : ℕ) (v : β) :
    setAt a i v = Function.update a i v := by
  funext j
  rw [setAt_apply, Function.update_apply]

theorem setAt_setAt {β : Type} (a : ℕ → β) (i : ℕ) (v w : β) :
    setAt (setAt a i v) i w = setAt a i w := by
  simp only [setAt_eq_update, Function.update_idem]

/-! ### One access -/

namespace Device

/-- The selected drive. -/
abbrev selected (d : Device) : FloppyDrive := d.disk d.currentDrive

/-- The device `d` with another latch, and the selected drive in the mode `writing`, turned by
`turns` nibbles and with the nibbles `data`. -/
def turned (d : Device) (latch : BYTE) (writing : Bool) (turns : ℕ) (data : ℕ → BYTE) : Device :=
  { d with
    dLatch := latch
    disk := setAt d.disk d.currentDrive { d.selected with
      writeMode := writing
      nibble := BitVec.ofNat 16 ((d.selected.nibble.toNat + turns) % TRACK_SIZE)
      data := data } }

/-- The cell of the image that the head is at after `turns` nibbles. -/
def trackCell (d : Device) (turns : ℕ) : ℕ :=
  cell TRACK_SIZE (d.selected.track.toNat * TRACK_SIZE)
    d.selected.nibble.toNat turns

/-- The nibbles `data` of the selected drive with `values` written to the track, the first of
them after `turns` nibbles. -/
def written (d : Device) (turns : ℕ) (values : List BYTE) (data : ℕ → BYTE) : ℕ → BYTE :=
  writeAll TRACK_SIZE (d.selected.track.toNat * TRACK_SIZE)
    d.selected.nibble.toNat turns values data

/-- The cells under the head lie in the track. -/
theorem trackCell_mem (d : Device) (turns : ℕ) :
    let track := d.selected.track.toNat
    track * TRACK_SIZE ≤ d.trackCell turns ∧ d.trackCell turns < (track + 1) * TRACK_SIZE := by
  have hlt : d.trackCell turns < _ + TRACK_SIZE := cell_lt (by decide) turns
  refine ⟨le_cell turns, ?_⟩
  rwa [Nat.succ_mul]

/-- The tracks below 35 lie in the image. -/
theorem trackCell_lt_image {d : Device} (turns : ℕ)
    (htrack : d.selected.track.toNat < 35) : d.trackCell turns < DISK_SIZE := by
  have hlt := (d.trackCell_mem turns).2
  simp only [TRACK_SIZE, DISK_SIZE] at *
  omega

variable {d : Device} {latch : BYTE} {turns : ℕ} {data : ℕ → BYTE}

theorem latchIndex_turned (writing : Bool) :
    (d.turned latch writing turns data).latchIndex = d.trackCell turns := by
  have hpos : (d.selected.nibble.toNat + turns) % TRACK_SIZE < 2 ^ 16 :=
    (Nat.mod_lt _ (by decide)).trans (by decide)
  simp only [latchIndex, turned, setAt_self, BitVec.toNat_ofNat, Nat.mod_eq_of_lt hpos]
  rfl

/-- The position of a turned disk, one nibble further. -/
theorem nibble_succ (pos turns : ℕ) :
    ((BitVec.ofNat 16 ((pos + turns) % TRACK_SIZE)).toNat + 1) % TRACK_SIZE =
      (pos + (turns + 1)) % TRACK_SIZE := by
  have hpos : (pos + turns) % TRACK_SIZE < 2 ^ 16 :=
    (Nat.mod_lt _ (by decide)).trans (by decide)
  rw [BitVec.toNat_ofNat, Nat.mod_eq_of_lt hpos, Nat.mod_add_mod, Nat.add_assoc]

theorem shiftLatch_writing : (d.turned latch true turns data).shiftLatch =
    d.turned latch true (turns + 1) (setAt data (d.trackCell turns) latch) := by
  simp only [shiftLatch, latchIndex_turned]
  simp only [turned, setDisk, setAt_self, setAt_setAt, if_true, nibble_succ]

theorem shiftLatch_reading : (d.turned latch false turns data).shiftLatch =
    d.turned (data (d.trackCell turns)) false (turns + 1) data := by
  simp only [shiftLatch, latchIndex_turned]
  simp only [turned, setDisk, setAt_self, setAt_setAt, Bool.false_eq_true, if_false, nibble_succ]

end Device

namespace Machine

open Device

/-- An access to a switch: a read, or a write of a value. -/
def touch (address : WORD) : Option BYTE → MemAccess
  | none => .read address
  | some value => .write address value

theorem touch_address (address : WORD) (kind : Option BYTE) :
    (touch address kind).address = address := by
  cases kind <;> rfl

/-- An access to $C000-$C0FF goes to the switch of its address. -/
theorem access_touch (m : Machine) (address : WORD) (kind : Option BYTE) {sw : SoftSwitch}
    (hlo : 0xC000 ≤ address.toNat) (hhi : address.toNat < 0xC100)
    (hsw : SoftSwitch.ofAddress address = some sw) :
    m.access (touch address kind) = (m.switch address (touch address kind).value
      (touch address kind).WRT sw).2 := by
  have h := m.access_eq_adSoftSwitch (a := touch address kind)
  rw [touch_address] at h
  rw [h hlo hhi, adSoftSwitch, hsw]

theorem access_shiftLatch (m : Machine) (kind : Option BYTE) :
    m.access (touch 0xC0EC kind) = m.setDevice shiftLatch :=
  m.access_touch 0xC0EC kind (by decide) (by decide) rfl

theorem access_loadLatch (m : Machine) (value : BYTE) :
    m.access (.write 0xC0ED value) = m.setDevice fun d => { d with dLatch := value } :=
  m.access_touch 0xC0ED (some value) (by decide) (by decide) rfl

theorem access_latchForRead (m : Machine) (kind : Option BYTE) :
    m.access (touch 0xC0EE kind) = m.setDevice fun d =>
      d.setDisk d.currentDrive fun f => { f with writeMode := false } :=
  m.access_touch 0xC0EE kind (by decide) (by decide) rfl

theorem access_latchForWrite (m : Machine) (kind : Option BYTE) :
    m.access (touch 0xC0EF kind) = m.setDevice fun d =>
      d.setDisk d.currentDrive fun f => { f with writeMode := true } :=
  m.access_touch 0xC0EF kind (by decide) (by decide) rfl

/-- A read of $C0EC returns the latch. -/
theorem memReadByte_shiftLatch (m : Machine) :
    m.memReadByte 0xC0EC = ((m.setDevice shiftLatch).device.dLatch, m.setDevice shiftLatch) :=
  rfl

/-! ### Runs of accesses -/

/-- The accesses that write one nibble: its value goes into the latch, and from there to the
disk by an access to $C0EC. -/
def writeNibble (m : Machine) (nibble : BYTE × Option BYTE) : Machine :=
  (m.access (.write 0xC0ED nibble.1)).access (touch 0xC0EC nibble.2)

/-- The values of `n` reads of $C0EC, and the machine that they leave. -/
def readNibbles : ℕ → Machine → List BYTE × Machine
  | 0, m => ([], m)
  | n + 1, m =>
      let (value, m) := m.memReadByte 0xC0EC
      let (values, m) := readNibbles n m
      (value :: values, m)

/-- Write a sequence and turn the disk on in read mode. Each access to $C0EC, $C0EE and $C0EF
is a read or a write, and `sequence` and `turn` say which. -/
def writeTrack (on off : Option BYTE) (sequence : List (BYTE × Option BYTE))
    (turn : List (Option BYTE)) (m : Machine) : Machine :=
  let m := m.access (touch 0xC0EF on)
  let m := sequence.foldl writeNibble m
  let m := m.access (touch 0xC0EE off)
  turn.foldl (fun m kind => m.access (touch 0xC0EC kind)) m

variable (m : Machine) (d : Device) (latch : BYTE) (turns : ℕ) (data : ℕ → BYTE)

theorem writeNibble_turned (nibble : BYTE × Option BYTE) :
    (m.withDevice (d.turned latch true turns data)).writeNibble nibble =
      m.withDevice (d.turned nibble.1 true (turns + 1)
        (setAt data (d.trackCell turns) nibble.1)) := by
  rw [writeNibble, access_loadLatch, access_shiftLatch]
  exact congrArg m.withDevice shiftLatch_writing

/-- A run of writes leaves its values on the track. -/
theorem writeNibbles_turned (sequence : List (BYTE × Option BYTE)) :
    ∃ latch', sequence.foldl writeNibble (m.withDevice (d.turned latch true turns data)) =
      m.withDevice (d.turned latch' true (turns + sequence.length)
        (d.written turns (sequence.map Prod.fst) data)) := by
  induction sequence generalizing latch turns data with
  | nil => exact ⟨latch, rfl⟩
  | cons nibble sequence ih =>
      obtain ⟨latch', h⟩ := ih nibble.1 (turns + 1)
        (setAt data (d.trackCell turns) nibble.1)
      refine ⟨latch', ?_⟩
      rw [List.foldl_cons, writeNibble_turned, h, List.length_cons, Nat.add_right_comm,
        Nat.add_assoc, setAt_eq_update]
      rfl

/-- A run of accesses in read mode turns the disk. -/
theorem turn_turned (turn : List (Option BYTE)) :
    ∃ latch', turn.foldl (fun m kind => m.access (touch 0xC0EC kind))
        (m.withDevice (d.turned latch false turns data)) =
      m.withDevice (d.turned latch' false (turns + turn.length) data) := by
  induction turn generalizing latch turns with
  | nil => exact ⟨latch, rfl⟩
  | cons kind turn ih =>
      obtain ⟨latch', h⟩ := ih (data (d.trackCell turns)) (turns + 1)
      refine ⟨latch', ?_⟩
      have hstep : (m.withDevice (d.turned latch false turns data)).access (touch 0xC0EC kind) =
          m.withDevice (d.turned (data (d.trackCell turns)) false (turns + 1) data) :=
        (access_shiftLatch _ kind).trans (congrArg m.withDevice shiftLatch_reading)
      rw [List.foldl_cons, hstep, h, List.length_cons, Nat.add_right_comm, Nat.add_assoc]

/-- A run of reads returns the nibbles that pass under the head. -/
theorem readNibbles_turned (n : ℕ) :
    ∃ latch', (m.withDevice (d.turned latch false turns data)).readNibbles n =
      ((List.range n).map fun j => data (d.trackCell (turns + j)),
        m.withDevice (d.turned latch' false (turns + n) data)) := by
  induction n generalizing latch turns with
  | zero => exact ⟨latch, rfl⟩
  | succ n ih =>
      obtain ⟨latch', h⟩ := ih (data (d.trackCell turns)) (turns + 1)
      refine ⟨latch', ?_⟩
      have hread : (m.withDevice (d.turned latch false turns data)).memReadByte 0xC0EC =
          (data (d.trackCell turns),
            m.withDevice (d.turned (data (d.trackCell turns)) false (turns + 1) data)) := by
        rw [memReadByte_shiftLatch]
        exact congrArg (fun d => (d.dLatch, m.withDevice d)) shiftLatch_reading
      simp only [readNibbles, hread, h, List.range_succ_eq_map, List.map_cons, List.map_map,
        Nat.add_right_comm turns 1, Nat.add_zero, Nat.add_assoc]
      simp [Function.comp_def]

/-! ### The round trip -/

/-- `m'` is `m` but for the latch and the selected drive, and in this drive but for the mode,
the position of the disk and the first `n` nibbles from the head on. -/
structure OnlyNibbles (n : ℕ) (m m' : Machine) : Prop where
  machine : m' = m.withDevice
    { m.device with dLatch := m'.device.dLatch, disk := m'.device.disk }
  others : ∀ drv, drv ≠ m.device.currentDrive → m'.device.disk drv = m.device.disk drv
  drive : m'.device.disk m.device.currentDrive =
    { m.device.selected with
      writeMode := (m'.device.disk m.device.currentDrive).writeMode
      nibble := (m'.device.disk m.device.currentDrive).nibble
      data := (m'.device.disk m.device.currentDrive).data }
  image : ∀ i, (∀ j < n, i ≠ m.device.trackCell j) →
    (m'.device.disk m.device.currentDrive).data i = m.device.selected.data i

/-- A turned device differs in the nibbles that were written. -/
theorem onlyNibbles_turned {m : Machine} {latch : BYTE} {writing : Bool} {turns n : ℕ}
    {data : ℕ → BYTE} (h : ∀ i, (∀ j < n, i ≠ m.device.trackCell j) →
      data i = m.device.selected.data i) :
    OnlyNibbles n m (m.withDevice (m.device.turned latch writing turns data)) where
  machine := rfl
  others _ hne := setAt_of_ne hne
  drive := by
    simp only [withDevice, turned, setAt_self]
  image i hi := by
    simp only [withDevice, turned, setAt_self]
    exact h i hi

/-- A disk that has not turned. -/
theorem latchForWrite_turned {m : Machine}
    (hnibble : m.device.selected.nibble.toNat < TRACK_SIZE)
    (kind : Option BYTE) : m.access (touch 0xC0EF kind) =
      m.withDevice (m.device.turned m.device.dLatch true 0
        m.device.selected.data) := by
  have hpos : BitVec.ofNat 16 ((m.device.selected.nibble.toNat + 0) %
      TRACK_SIZE) = m.device.selected.nibble := by
    rw [Nat.add_zero, Nat.mod_eq_of_lt hnibble, BitVec.ofNat_toNat, BitVec.setWidth_eq]
  rw [access_latchForWrite]
  simp only [withDevice, setDevice, turned, setDisk, hpos]

theorem latchForRead_turned {m : Machine} {d : Device} {latch : BYTE} {writing : Bool}
    {turns : ℕ} {data : ℕ → BYTE} (kind : Option BYTE) :
    (m.withDevice (d.turned latch writing turns data)).access (touch 0xC0EE kind) =
      m.withDevice (d.turned latch false turns data) := by
  rw [access_latchForRead]
  simp only [withDevice, setDevice, turned, setDisk, setAt_self, setAt_setAt]

/-- What is left when a sequence was written and the disk has turned once. -/
theorem writeTrack_turned {m : Machine}
    (hnibble : m.device.selected.nibble.toNat < TRACK_SIZE)
    (on off : Option BYTE) {sequence : List (BYTE × Option BYTE)} {turn : List (Option BYTE)}
    (hturn : sequence.length + turn.length = TRACK_SIZE) :
    ∃ latch, m.writeTrack on off sequence turn =
      m.withDevice (m.device.turned latch false TRACK_SIZE
        (m.device.written 0 (sequence.map Prod.fst)
          m.device.selected.data)) := by
  obtain ⟨latch, hwrite⟩ := writeNibbles_turned m m.device m.device.dLatch 0
    m.device.selected.data sequence
  obtain ⟨latch', hread⟩ := turn_turned m m.device latch (0 + sequence.length)
    (m.device.written 0 (sequence.map Prod.fst) m.device.selected.data) turn
  refine ⟨latch', ?_⟩
  rw [writeTrack, latchForWrite_turned hnibble, hwrite, latchForRead_turned, hread, Nat.zero_add,
    hturn]

end Machine

open Machine

/-- **A sequence of at most one track that a program writes to the selected drive is read back
when the disk has turned once. It changes no other nibble of an image, and nothing of the other
drive.** The position `nibble` of a drive is always below `TRACK_SIZE` (`IndexInv`). -/
theorem readNibbles_writeTrack {m : Machine}
    (htrack : m.device.selected.track.toNat < 35)
    (hnibble : m.device.selected.nibble.toNat < TRACK_SIZE)
    (on off : Option BYTE) {sequence : List (BYTE × Option BYTE)} {turn : List (Option BYTE)}
    (hturn : sequence.length + turn.length = TRACK_SIZE) :
    let written := m.writeTrack on off sequence turn
    let read := written.readNibbles sequence.length
    read.1 = sequence.map Prod.fst ∧
      OnlyNibbles sequence.length m written ∧ OnlyNibbles sequence.length m read.2 ∧
      ∀ j < sequence.length, m.device.trackCell j < DISK_SIZE ∧
        m.device.trackCell j / TRACK_SIZE =
          m.device.selected.track.toNat := by
  intro written read
  obtain ⟨latch, hwritten⟩ := writeTrack_turned hnibble on off hturn
  obtain ⟨latch', hread⟩ := readNibbles_turned m m.device latch TRACK_SIZE
    (m.device.written 0 (sequence.map Prod.fst) m.device.selected.data) sequence.length
  have hlength : (sequence.map Prod.fst).length = sequence.length := List.length_map _
  have hvalue : ∀ (j : ℕ) (hj : j < (sequence.map Prod.fst).length),
      m.device.written 0 (sequence.map Prod.fst) m.device.selected.data
        (m.device.trackCell j) = (sequence.map Prod.fst)[j] := by
    intro j hj
    have hcell : m.device.written 0 (sequence.map Prod.fst) m.device.selected.data
        (m.device.trackCell (0 + j)) = (sequence.map Prod.fst)[j] :=
      writeAll_cell (sequence.map Prod.fst) 0 m.device.selected.data (by omega) hj
    rwa [Nat.zero_add] at hcell
  have hother : ∀ i, (∀ j < sequence.length, i ≠ m.device.trackCell j) →
      m.device.written 0 (sequence.map Prod.fst) m.device.selected.data i =
        m.device.selected.data i := by
    intro i hi
    refine writeAll_of_ne _ 0 _ fun j hj => ?_
    rw [Nat.zero_add]
    exact hi j (hlength ▸ hj)
  have hreads : read = _ := (congrArg (readNibbles sequence.length) hwritten).trans hread
  refine ⟨?_, ?_, ?_, fun j _ => ⟨Device.trackCell_lt_image j htrack, ?_⟩⟩
  · rw [hreads]
    refine List.ext_getElem (by simp) fun j hj hj' => ?_
    rw [List.getElem_map, List.getElem_range]
    exact (congrArg _ (cell_add_ring j)).trans (hvalue j hj')
  · rw [show written = _ from hwritten]
    exact onlyNibbles_turned hother
  · rw [hreads]
    exact onlyNibbles_turned hother
  · obtain ⟨hle, hlt⟩ := m.device.trackCell_mem j
    exact Nat.div_eq_of_lt_le hle hlt

/-- Two nibbles written over the end of track 17. -/
theorem readNibbles_writeTrack_wrap :
    let m := Machine.initial.withDevice { Device.initial with
      disk := fun _ => { FloppyDrive.zero with track := 17, nibble := 0x19FF } }
    ((m.writeTrack none none [(0xD5, none), (0xAA, some 0)]
      (List.replicate (TRACK_SIZE - 2) none)).readNibbles 2).1 = [0xD5, 0xAA] := by
  intro m
  have htrack : m.device.selected.track.toNat < 35 := by decide
  have hnibble : m.device.selected.nibble.toNat < TRACK_SIZE := by decide
  have hturn : [((0xD5 : BYTE), (none : Option BYTE)), (0xAA, some 0)].length +
      (List.replicate (TRACK_SIZE - 2) (none : Option BYTE)).length = TRACK_SIZE := by
    rw [List.length_replicate]
    decide
  exact (readNibbles_writeTrack htrack hnibble none none hturn).1

end B2OS
