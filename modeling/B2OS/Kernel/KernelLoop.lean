import B2OS.Apple2.SessionRun

/-!
# The Loop of the Kernel

`kmain` repeats `kernel_loop`, which runs the guest for a budget and then renders a frame. The
number of the frame is what the text flashes by; `ad_Render` has a counter of its own, by which it
draws all of the graphics again in one of thirty frames. The text of `printf` that the loop prints
goes to the console, which the emulator does not look at, and is left out.

## Main results

* `kernelLoops_session`: the loop is a session.
* `frameState_coherent`: within thirty rounds in one mode the screen stays coherent.
* `kernelLoops_shows`: what the frames of the loop show.
-/

namespace B2OS

open Machine Device Raster

def TARGET_FRAME : ℤ := 60

section Loop

variable (fonts : Fonts) (order : EvalOrder) (fuel : ℕ)

/-- `kernel_loop`, on `frame` and the emulator. -/
def kernelLoop (k : ℤ × (Cpu × Machine)) : Trail (ℤ × (Cpu × Machine)) :=
  let (frame, x) := k
  ((machineRun order fuel 3050 x).map (Prod.mk frame)).andThen fun k =>
    let x := machineRender fonts frame k.2
    .stay (if frame > TARGET_FRAME then 0 else frame + 1, x)

/-- The first `n` rounds of the loop of `kmain`. -/
def kernelLoops : ℕ → ℤ × (Cpu × Machine) → Trail (ℤ × (Cpu × Machine))
  | 0, k => .stay k
  | n + 1, k => (kernelLoops n k).andThen (kernelLoop fonts order fuel)

/-- The state that round `n` renders, if its run of the guest comes back. -/
def frameState (n : ℕ) (x : Cpu × Machine) : Option (Cpu × Machine) :=
  (kernelLoops fonts order fuel n (0, x)).final.bind fun k => (machineRun order fuel 3050 k.2).final

end Loop

/-! ### The loop as a session -/

/-- The number of the frame of round `n`. -/
def frameOf (n : ℕ) : ℤ := (n % 62 : ℕ)

theorem frameOf_succ (n : ℕ) :
    (if frameOf n > TARGET_FRAME then 0 else frameOf n + 1) = frameOf (n + 1) := by
  simp only [frameOf, TARGET_FRAME]
  split_ifs <;> omega

/-- What the first `n` rounds of the loop do with the emulator. -/
def rounds : ℕ → List SessionOp
  | 0 => []
  | n + 1 => rounds n ++ [.machineRun 3050, .render (frameOf n)]

section Session

variable {fonts : Fonts} {order : EvalOrder} {fuel : ℕ}

/-- A session in two parts. -/
theorem session_append (l l' : List SessionOp) (x : Cpu × Machine) :
    session fonts order fuel (l ++ l') x =
      (session fonts order fuel l x).andThen (session fonts order fuel l') := by
  induction l generalizing x with
  | nil => rfl
  | cons op l ih =>
      rw [List.cons_append, session, session, Trail.andThen_assoc]
      exact congrArg (Trail.andThen _) (funext ih)

/-- A round is a run and a frame. -/
theorem kernelLoop_map (frame : ℤ) (x : Cpu × Machine) :
    (kernelLoop fonts order fuel (frame, x)).map Prod.snd =
      session fonts order fuel [.machineRun 3050, .render frame] x := by
  have hsession : session fonts order fuel [.machineRun 3050, .render frame] x =
      (machineRun order fuel 3050 x).andThen fun x => .stay (machineRender fonts frame x) := rfl
  rw [hsession, kernelLoop]
  obtain ⟨passed, final⟩ := machineRun order fuel 3050 x
  cases final with
  | none => simp [Trail.map, Trail.andThen]
  | some y => simp [Trail.map, Trail.andThen, Trail.stay]

/-- A round comes back when its run of the guest does, with the frame rendered. -/
theorem kernelLoop_final (k : ℤ × (Cpu × Machine)) :
    (kernelLoop fonts order fuel k).final = (machineRun order fuel 3050 k.2).final.map fun z =>
      (if k.1 > TARGET_FRAME then 0 else k.1 + 1, machineRender fonts k.1 z) := by
  rw [kernelLoop]
  obtain ⟨passed, final⟩ := machineRun order fuel 3050 k.2
  cases final with
  | none => rfl
  | some z => rfl

/-- Where the next round starts. -/
theorem mem_kernelLoops_succ {n : ℕ} {x : Cpu × Machine} {k' : ℤ × (Cpu × Machine)}
    (h : k' ∈ (kernelLoops fonts order fuel (n + 1) (0, x)).final) :
    ∃ k ∈ (kernelLoops fonts order fuel n (0, x)).final,
      ∃ z ∈ (machineRun order fuel 3050 k.2).final,
        k' = (if k.1 > TARGET_FRAME then 0 else k.1 + 1, machineRender fonts k.1 z) := by
  obtain ⟨k, hk, hloop⟩ := Trail.mem_final_andThen.mp h
  rw [kernelLoop_final] at hloop
  obtain ⟨z, hz, rfl⟩ := Option.mem_map.mp hloop
  exact ⟨k, hk, z, hz, rfl⟩

/-- **The loop of the kernel is a session**, with the frames in turn. -/
theorem kernelLoops_session (n : ℕ) (x : Cpu × Machine) :
    (kernelLoops fonts order fuel n (0, x)).map Prod.snd = session fonts order fuel (rounds n) x ∧
      ∀ k ∈ (kernelLoops fonts order fuel n (0, x)).final, k.1 = frameOf n := by
  induction n with
  | zero => exact ⟨rfl, fun k hk => Option.some.inj hk ▸ rfl⟩
  | succ n ih =>
      obtain ⟨hmap, hframe⟩ := ih
      constructor
      · rw [kernelLoops, rounds, session_append, ← hmap]
        refine Trail.map_andThen fun k hk => ?_
        obtain ⟨frame, y⟩ := k
        obtain rfl : frame = frameOf n := hframe _ hk
        exact kernelLoop_map _ y
      · intro k hk
        obtain ⟨l, hl, z, -, rfl⟩ := mem_kernelLoops_succ hk
        rw [hframe l hl]
        exact frameOf_succ n

end Session

/-! ### The display in the loop -/

section Display

variable {fonts : Fonts} {order : EvalOrder} {fuel : ℕ} {x y z : Cpu × Machine}

section Run

variable {I : Cpu × Machine → Prop} (hinstruction : ∀ y, I y → I (acIteration bus order y))
  (hturn : ∀ y, I y → I (updateFloppyDisk y).2)

include hinstruction

theorem acRunTrail_inv (cycle : ULONG) (h : I y) : (acRunTrail order fuel cycle y).Within I where
  passed s hs := by
    obtain ⟨i, -, rfl⟩ := List.mem_map.mp hs
    exact Function.Iterate.rec I h hinstruction (i + 1)
  final s hs := by
    obtain ⟨r, hr, rfl⟩ := Option.map_eq_some_iff.mp hs
    rw [((acRun_eq_some_iff bus order cycle y.1 y.2 r).mp ⟨fuel, hr⟩).2.2]
    exact Function.Iterate.rec I h hinstruction r.iterations

include hturn

theorem diskLoop_inv (n : ℕ) (h : I y) : (diskLoop order fuel n y).Within I := by
  induction n generalizing y with
  | zero =>
      exact ⟨fun _ hs => absurd hs List.not_mem_nil, fun _ hs => absurd hs (Option.not_mem_none _)⟩
  | succ n ih =>
      rw [diskLoop]
      refine (Trail.Within.step (hturn y h)).andThen fun z hz => ?_
      split_ifs
      · exact (acRunTrail_inv hinstruction 5000 hz).andThen fun w hw => ih hw
      · exact .stay hz

/-- What the instructions and the turns of the disk keep, a run of the guest keeps. -/
theorem machineRun_inv (cycle : ULONG) (h : I y) : (machineRun order fuel cycle y).Within I :=
  (acRunTrail_inv hinstruction cycle h).andThen fun _ hz => diskLoop_inv hinstruction hturn fuel hz

end Run

theorem Device.SameDisplay.trans {d d' d'' : Device} (h : SameDisplay d d')
    (h' : SameDisplay d' d'') : SameDisplay d d'' :=
  ⟨h'.pixelGR.trans h.pixelGR, h'.LoResCache.trans h.LoResCache,
    h'.HiResCache.trans h.HiResCache, h'.previousBit.trans h.previousBit,
    h'.flashCycle.trans h.flashCycle, h'.colorbuffer.trans h.colorbuffer⟩

/-- A run of the guest leaves the variables of the display, and one of the two pages. -/
theorem machineRun_sameDisplay (cycle : ULONG) (h : Paged y.2.device) :
    (machineRun order fuel cycle y).Within fun z =>
      SameDisplay y.2.device z.2.device ∧ Paged z.2.device := by
  refine machineRun_inv (fun z hz => ?_) (fun z hz => ?_) cycle ⟨.refl _, h⟩
  · have haccess : ∀ (m : Machine) a, SameDisplay y.2.device m.device ∧ Paged m.device →
        SameDisplay y.2.device (m.access a).device ∧ Paged (m.access a).device :=
      fun m a hm => ⟨hm.1.trans (access_sameDisplay m a), access_paged hm.2 a⟩
    exact BusProg.exec_inv
      (I := fun m : Machine => SameDisplay y.2.device m.device ∧ Paged m.device)
      (fun a m hm => haccess m (.read a) hm) (fun a b m hm => haccess m (.write a b) hm) _ hz
  · have hsame : SameDisplay z.2.device (updateFloppyDisk z).2.2.device := by
      simp only [updateFloppyDisk, Device.adUpdateFloppyDisk]
      split_ifs <;> exact ⟨rfl, rfl, rfl, rfl, rfl, rfl⟩
    exact ⟨hz.1.trans hsame, updateFloppyDisk_paged hz.2⟩

/-- The counter of `ad_Render`, one frame on. -/
theorem adRender_flashCycle (readByte : WORD → BYTE) (frame : ℤ) {d : Device}
    (h : DisplayInv d) : (d.adRender readByte fonts frame).flashCycle =
      if d.flashCycle + 1 = 30 then 0 else d.flashCycle + 1 := by
  obtain ⟨⟨a, buf, htext⟩, -⟩ := drawText_spec readByte fonts frame (drawGraphics readByte d)
  have hswitches := (drawGraphics_spec readByte h).switches
  rw [adRender_eq fonts frame h, htext, ← hswitches.flashCycle, countFrame]
  dsimp only
  split_ifs <;> rfl

/-- The counter that round `n` finds. -/
def flashOf (n : ℕ) : BYTE := BitVec.ofNat 8 (n % 30)

theorem flashOf_succ (n : ℕ) :
    (if flashOf n + 1 = 30 then 0 else flashOf n + 1) = flashOf (n + 1) := by
  have hturn : ∀ k < 30, (if BitVec.ofNat 8 k + 1 = 30 then 0 else BitVec.ofNat 8 k + 1) =
      BitVec.ofNat 8 ((k + 1) % 30) := by decide
  rw [flashOf, hturn _ (Nat.mod_lt n (by decide)), Nat.mod_add_mod, flashOf]

/-- The display between two rounds of the loop, with the counter of `ad_Render`. -/
structure LoopInv (flashCycle : BYTE) (d : Device) : Prop where
  inv : DisplayInv d
  paged : Paged d
  flashCycle : d.flashCycle = flashCycle

theorem LoopInv.machineRun {f : BYTE} (h : LoopInv f y.2.device)
    (hz : z ∈ (B2OS.machineRun order fuel 3050 y).final) : LoopInv f z.2.device := by
  obtain ⟨hsame, hpaged⟩ := (machineRun_sameDisplay 3050 h.paged).final z hz
  exact ⟨h.inv.sameDisplay hsame, hpaged, hsame.flashCycle.trans h.flashCycle⟩

theorem machineRender_device (h : Paged z.2.device) (fonts : Fonts) (frame : ℤ) :
    (machineRender fonts frame z).2.device = z.2.device.adRender z.2.byteAt fonts frame := by
  rw [machineRender, render_eq h]
  rfl

theorem LoopInv.frameSpec {f : BYTE} (h : LoopInv f z.2.device) (frame : ℤ) :
    FrameSpec z.2.byteAt fonts frame z.2.device (machineRender fonts frame z).2.device := by
  rw [machineRender_device h.paged]
  exact adRender_spec _ fonts frame h.inv

/-- A frame counts on. -/
theorem LoopInv.machineRender {n : ℕ} (h : LoopInv (flashOf n) z.2.device) (frame : ℤ) :
    LoopInv (flashOf (n + 1)) (B2OS.machineRender fonts frame z).2.device where
  inv := (h.frameSpec frame).inv
  paged := machineRender_paged h.paged fonts frame
  flashCycle := by
    rw [machineRender_device h.paged, adRender_flashCycle _ _ h.inv, h.flashCycle, flashOf_succ]

theorem kernelLoops_loopInv (n : ℕ) (h : LoopInv (flashOf 0) x.2.device) :
    ∀ k ∈ (kernelLoops fonts order fuel n (0, x)).final, LoopInv (flashOf n) k.2.2.device := by
  induction n with
  | zero => exact fun k hk => Option.some.inj hk ▸ h
  | succ n ih =>
      intro k hk
      obtain ⟨l, hl, z, hz, rfl⟩ := mem_kernelLoops_succ hk
      exact ((ih l hl).machineRun hz).machineRender l.1

theorem frameState_loopInv (n : ℕ) (h : LoopInv (flashOf 0) x.2.device) :
    ∀ z ∈ frameState fonts order fuel n x, LoopInv (flashOf n) z.2.device := by
  intro z hz
  obtain ⟨k, hk, hrun⟩ := Option.bind_eq_some_iff.mp hz
  exact (kernelLoops_loopInv n h k hk).machineRun hrun

/-! ### Thirty rounds -/

/-- The soft switches that say what the display shows. -/
def modeSwitches (d : Device) : Bool × Bool × Bool := (d.textMode, d.mixedMode, d.hires_Mode)

/-- What a frame leaves coherent is coherent for the next frame, if this one finds the same
mode: the guest does not reach the screen by itself. -/
theorem Device.Coherent.machineRun {d : Device} (h : Coherent y.2.device)
    (hpaged : Paged y.2.device) (hz : z ∈ (B2OS.machineRun order fuel 3050 y).final)
    (hmode : modeSwitches z.2.device = modeSwitches d)
    (hd : modeSwitches y.2.device = modeSwitches d) : Coherent z.2.device := by
  have hsame := ((machineRun_sameDisplay 3050 hpaged).final z hz).1
  have hswitches := hmode.trans hd.symm
  simp only [modeSwitches, Prod.mk.injEq] at hswitches
  obtain ⟨htext, hmixed, hhi⟩ := hswitches
  refine h.sameDisplay hsame (fun line => ?_) hhi
  rw [ShowsText, ShowsText, htext, hmixed]

/-- Within thirty rounds in one mode, each frame draws everything or finds the screen coherent.
The first one of the thirty draws everything. -/
theorem frameState_coherent (hstart : LoopInv (flashOf 0) x.2.device) (q j : ℕ) :
    ∀ z ∈ frameState fonts order fuel (30 * q + j) x,
      (∀ i ≤ j, ∀ w ∈ frameState fonts order fuel (30 * q + i) x,
        modeSwitches w.2.device = modeSwitches z.2.device) →
      z.2.device.flashCycle = 0 ∨ Coherent z.2.device := by
  induction j with
  | zero =>
      intro z hz _
      left
      rw [(frameState_loopInv _ hstart z hz).flashCycle, flashOf, Nat.add_zero, Nat.mul_mod_right]
      rfl
  | succ j ih =>
      intro z hz hmode
      right
      obtain ⟨k, hk, hrun⟩ := Option.bind_eq_some_iff.mp hz
      obtain ⟨l, hl, w, hw, rfl⟩ := mem_kernelLoops_succ hk
      have hframe : w ∈ frameState fonts order fuel (30 * q + j) x :=
        Option.bind_eq_some_iff.mpr ⟨l, hl, hw⟩
      have hwmode := hmode j (Nat.le_succ j) w hframe
      have hbefore : w.2.device.flashCycle = 0 ∨ Coherent w.2.device :=
        ih w hframe fun i hi v hv =>
          (hmode i (Nat.le_succ_of_le hi) v hv).trans hwmode.symm
      have hinv := frameState_loopInv _ hstart w hframe
      have hspec : FrameSpec w.2.byteAt fonts l.1 w.2.device
        (machineRender fonts l.1 w).2.device := hinv.frameSpec l.1
      refine (hspec.coherent hbefore).machineRun (hinv.machineRender l.1).paged hrun rfl ?_
      rw [← hwmode]
      simp only [modeSwitches, hspec.textMode, hspec.mixedMode, hspec.hires_Mode]

/-- **What the frames of the kernel show.** The emulator is in a session, whose frames have the
numbers 0 to 61 in turn. Whatever the guest does to the soft switches, the frame of each round
shows the text that it finds; and it shows the whole picture, if the rounds of its thirty before it
have found the same mode, as the first one of each thirty always does. -/
theorem kernelLoops_shows (images : Images) (fonts : Fonts) (order : EvalOrder) (fuel n : ℕ)
    (x : Cpu × Machine) :
    let start := machineInitMachine images x
    (kernelLoops fonts order fuel n (0, start)).map Prod.snd =
        session fonts order fuel (rounds n) start ∧
      ∀ z ∈ frameState fonts order fuel n start,
        let e := machineRender fonts (frameOf n) z
        (kernelLoops fonts order fuel (n + 1) (0, start)).final = some (frameOf (n + 1), e) ∧
          ∀ x y, x < SCREENSIZE_X → y < SCREENSIZE_Y →
            (ShowsText z.2.device y ∨ ∀ i ≤ n, i / 30 = n / 30 →
              ∀ w ∈ frameState fonts order fuel i start,
                modeSwitches w.2.device = modeSwitches z.2.device) →
            pixel SCREENSIZE_X e.2.device.colorbuffer x y =
              picture z.2.byteAt fonts (frameOf n) z.2.device x y := by
  intro start
  obtain ⟨hsession, hframe⟩ : (kernelLoops fonts order fuel n (0, start)).map Prod.snd = _ ∧
      ∀ k ∈ (kernelLoops fonts order fuel n (0, start)).final, k.1 = frameOf n :=
    kernelLoops_session n start
  have hstart : LoopInv (flashOf 0) start.2.device := by
    have hreset : start.2.device = _ := machineInitMachine_device images x
    rw [hreset]
    exact ⟨displayInv_adReset _, .inl rfl, rfl⟩
  refine ⟨hsession, fun z hz => ⟨?_, fun x y hx hy hshows => ?_⟩⟩
  · obtain ⟨k, hk, hrun⟩ := Option.bind_eq_some_iff.mp hz
    rw [kernelLoops, Trail.final_andThen hk, kernelLoop_final, hrun, Option.map_some, hframe k hk,
      frameOf_succ]
  · have hspec : FrameSpec z.2.byteAt fonts (frameOf n) z.2.device
      (machineRender fonts (frameOf n) z).2.device :=
        (frameState_loopInv n hstart z hz).frameSpec _
    rcases hshows with htext | hmode
    · rw [hspec.pixel x y hx hy, if_pos (Or.inl htext)]
    · refine hspec.shows ?_ hx hy
      obtain ⟨q, j, hj, rfl⟩ : ∃ q j, j < 30 ∧ n = 30 * q + j :=
        ⟨n / 30, n % 30, Nat.mod_lt n (by decide), (Nat.div_add_mod n 30).symm⟩
      exact frameState_coherent hstart q j z hz fun i hi => hmode (30 * q + i) (by omega) (by omega)

end Display

end B2OS
