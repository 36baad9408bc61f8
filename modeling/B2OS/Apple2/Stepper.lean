import B2OS.Apple2.DiskII

/-!
# The Stepper Motor of the Disk II

The head of a drive is moved by switching the four phases of a stepper motor on and off in
turn. `ad_stepMotor` keeps the phases with two delayed copies, `phasesB` and `phasesBB`, each of
which takes over one entry at every access, and moves the head towards a phase that is switched
on from a neighbour that is on in the older copy.

A drive that is settled at a phase has only that phase on. The older copy may still hold the
phase before it, but no phase two steps away, and that is what a move needs: the phase that is
switched on next has exactly one neighbour in the copy, the one the head comes from.

## Main results

* `adStepMotor_spec`: what one access leaves of the stepper of the selected drive.
* `Settled.inv`: what a settled drive keeps of its past.
* `headPos_steps`: from a settled drive, any sequence of steps moves the head one half track for
  each step, up to the ends, and the track follows.
-/

namespace B2OS

open Device

/-! ### One access -/

/-- The soft switch that turns a phase on or off. -/
def phaseSwitch (phase : Fin 4) (on : Bool) : WORD :=
  0xC0E0 + BitVec.ofNat 16 (2 * phase) + if on then 1 else 0

/-- The two neighbours of a phase. -/
def Neighbours (p q : Fin 4) : Prop := q = p + 1 ∨ q = p - 1

/-- Where the head goes when a phase is switched on, given the older copy of the phases. -/
def headTowards (phasesBB : ℕ → Bool) (phase : Fin 4) (h : ℤ) : ℤ :=
  let h := if phasesBB (phase + 1 : Fin 4) then headIn h else h
  if phasesBB (phase - 1 : Fin 4) then headOut h else h

/-- What an access to the switch of a phase leaves of the stepper of the selected drive. -/
structure StepSpec (d : Device) (phase : Fin 4) (on : Bool) (d' : Device) : Prop where
  currentDrive : d'.currentDrive = d.currentDrive
  pIdx : d'.pIdx d.currentDrive = phase
  pIdxB : d'.pIdxB d.currentDrive = d.pIdx d.currentDrive
  phasesBB : ∀ i, d'.phasesBB d.currentDrive i =
    if i = d.pIdxB d.currentDrive then d.phasesB d.currentDrive (d.pIdxB d.currentDrive)
    else d.phasesBB d.currentDrive i
  phasesB : ∀ i, d'.phasesB d.currentDrive i =
    if i = d.pIdx d.currentDrive then d.phases d.currentDrive (d.pIdx d.currentDrive)
    else d.phasesB d.currentDrive i
  phases : ∀ i, d'.phases d.currentDrive i =
    if i = phase then on else d.phases d.currentDrive i
  head : d'.halfTrackPos d.currentDrive =
    if on then headTowards (d'.phasesBB d.currentDrive) phase (d.halfTrackPos d.currentDrive)
    else d.halfTrackPos d.currentDrive
  track : (d'.disk d.currentDrive).track =
    if on then BitVec.ofInt 8 ((d'.halfTrackPos d.currentDrive + 1) / 2)
    else (d.disk d.currentDrive).track

theorem adStepMotor_spec (d : Device) (phase : Fin 4) (on : Bool) :
    StepSpec d phase on (d.adStepMotor (phaseSwitch phase on)) := by
  have hphase : ((phaseSwitch phase on &&& 7) >>> 1).toNat = phase := by
    revert phase on
    decide
  have hon : (phaseSwitch phase on &&& 7 &&& 1 = 0) ↔ on = false := by
    revert phase on
    decide
  have hnext : ∀ p : Fin 4, ((p : ℕ) + 1) % 4 = (p + 1 : Fin 4) := by decide
  have hprev : ∀ p : Fin 4, ((p : ℕ) + 3) % 4 = (p - 1 : Fin 4) := by decide
  simp only [adStepMotor, hphase, hon, hnext, hprev]
  cases on with
  | false =>
      rw [if_pos rfl]
      constructor <;> intros <;> simp [setAt2_apply]
  | true =>
      rw [if_neg (by simp)]
      constructor <;> intros <;> simp [setAt2_apply, headTowards, setDisk]

/-- One phase on and then another one off: the access that starts and the one that completes a
step of the head. -/
def stepPair (d : Device) (p q : Fin 4) : Device :=
  (d.adStepMotor (phaseSwitch p true)).adStepMotor (phaseSwitch q false)

/-- The older copy of the phases when the head moves. -/
def agedPhases (d : Device) (i : ℕ) : Bool :=
  if i = d.pIdxB d.currentDrive then d.phasesB d.currentDrive (d.pIdxB d.currentDrive)
  else d.phasesBB d.currentDrive i

/-- What switching `p` on and `q` off leaves of the stepper of the selected drive. -/
structure PairSpec (d : Device) (p q : Fin 4) (d' : Device) : Prop where
  currentDrive : d'.currentDrive = d.currentDrive
  pIdx : d'.pIdx d.currentDrive = q
  pIdxB : d'.pIdxB d.currentDrive = p
  off : d'.phases d.currentDrive q = false
  onB : d'.phasesB d.currentDrive p = true
  phasesBB : ∀ i, d'.phasesBB d.currentDrive i =
    if i = d.pIdx d.currentDrive then d.phases d.currentDrive (d.pIdx d.currentDrive)
    else agedPhases d i
  head : d'.halfTrackPos d.currentDrive =
    headTowards (agedPhases d) p (d.halfTrackPos d.currentDrive)
  track : (d'.disk d.currentDrive).track =
    BitVec.ofInt 8 ((d'.halfTrackPos d.currentDrive + 1) / 2)

theorem stepPair_spec (d : Device) (p q : Fin 4) : PairSpec d p q (stepPair d p q) := by
  have hon := adStepMotor_spec d p true
  have hoff := adStepMotor_spec (d.adStepMotor (phaseSwitch p true)) q false
  rw [← stepPair] at hoff
  have hcd := hon.currentDrive
  have haged : (d.adStepMotor (phaseSwitch p true)).phasesBB d.currentDrive = agedPhases d :=
    funext hon.phasesBB
  constructor
  · exact hoff.currentDrive.trans hcd
  · exact hcd ▸ hoff.pIdx
  · rw [← hcd, hoff.pIdxB, hcd, hon.pIdx]
  · rw [← hcd, hoff.phases, if_pos rfl]
  · rw [← hcd, hoff.phasesB, hcd, hon.pIdx, if_pos rfl, hon.phases, if_pos rfl]
  · intro i
    rw [← hcd, hoff.phasesBB, hcd, hon.pIdxB, hon.phasesB, if_pos rfl, haged]
  · rw [← hcd, hoff.head, hcd, if_neg (by simp), hon.head, if_pos rfl, haged]
  · rw [← hcd, hoff.track, hoff.head, hcd, hon.track]
    rfl

theorem headTowards_range {phasesBB : ℕ → Bool} {p : Fin 4} {h : ℤ} (hh : 0 ≤ h ∧ h ≤ 140) :
    0 ≤ headTowards phasesBB p h ∧ headTowards phasesBB p h ≤ 140 := by
  simp only [headTowards]
  split_ifs
  · exact headOut_range (headIn_range hh)
  · exact headOut_range hh
  · exact headIn_range hh
  · exact hh

/-! ### Settled drives -/

/-- A stepper with only the phase `q` on and nothing in its copies, and the head at the first
half track: what `ad_Reset` and the switch of the phase leave. -/
structure OnlyOn (d : Device) (q : Fin 4) : Prop where
  phases : ∀ i : Fin 4, d.phases d.currentDrive i = decide (i = q)
  phasesB : ∀ i : Fin 4, d.phasesB d.currentDrive i = false
  phasesBB : ∀ i : Fin 4, d.phasesBB d.currentDrive i = false
  pIdx : d.pIdx d.currentDrive = 0 ∨ d.pIdx d.currentDrive = q
  pIdxB : d.pIdxB d.currentDrive = 0
  head : d.halfTrackPos d.currentDrive = 0

/-- The selected drive is **settled** at phase `p` from its neighbour `q`: `ad_stepMotor` has
last switched `p` on and `q` off, and before that only `q` was on after a reset, or the drive
was settled at `q`. -/
inductive Settled : Device → Fin 4 → Fin 4 → Prop
  | start {d : Device} {p q : Fin 4} (hd : OnlyOn d q) (hpq : Neighbours p q) :
      Settled (stepPair d p q) p q
  | step {d : Device} {p q r : Fin 4} (hd : Settled d q r) (hpq : Neighbours p q) :
      Settled (stepPair d p q) p q

/-- What a settled drive keeps of its past: `p` is on and `q` is off, the next access copies the
two, and the older copy has no phase two steps away from either. -/
structure SettledInv (d : Device) (p q : Fin 4) : Prop where
  pIdx : d.pIdx d.currentDrive = q
  pIdxB : d.pIdxB d.currentDrive = p
  off : d.phases d.currentDrive q = false
  onB : d.phasesB d.currentDrive p = true
  clear : d.phasesBB d.currentDrive (p + 2 : Fin 4) = false
  clear' : d.phasesBB d.currentDrive (q + 2 : Fin 4) = false
  head : 0 ≤ d.halfTrackPos d.currentDrive ∧ d.halfTrackPos d.currentDrive ≤ 140
  track : ((d.disk d.currentDrive).track.toNat : ℤ) = (d.halfTrackPos d.currentDrive + 1) / 2

theorem Neighbours.symm {p q : Fin 4} (h : Neighbours p q) : Neighbours q p := by
  simp only [Neighbours] at *
  revert p q
  decide

/-- The facts about four phases on a circle that the moves rest on. -/
theorem phases_circle {p q r : Fin 4} (hpq : Neighbours p q) (hqr : Neighbours q r) :
    p + 2 ≠ q ∧ q + 2 ≠ q ∧ q + 2 ≠ r ∧ (p + 2 = r ∨ p + 2 = r + 2) := by
  simp only [Neighbours] at hpq hqr
  revert p q r
  decide

/-- One phase further and back, and two phases further and back. -/
theorem phase_next_prev (q : Fin 4) :
    q + 1 - 1 = q ∧ q - 1 + 1 = q ∧ q + 1 + 1 = q + 2 ∧ q - 1 - 1 = q + 2 := by
  revert q
  decide

/-- A pair that leaves the older copy clear two steps away settles the drive. -/
theorem PairSpec.settledInv {d d' : Device} {p q : Fin 4} (h : PairSpec d p q d')
    (hhead : 0 ≤ d.halfTrackPos d.currentDrive ∧ d.halfTrackPos d.currentDrive ≤ 140)
    (hclear : d'.phasesBB d.currentDrive (p + 2 : Fin 4) = false)
    (hclear' : d'.phasesBB d.currentDrive (q + 2 : Fin 4) = false) : SettledInv d' p q := by
  have hrange := @headTowards_range (agedPhases d) p _ hhead
  rw [← h.head] at hrange
  constructor <;> rw [h.currentDrive]
  · exact h.pIdx
  · exact h.pIdxB
  · exact h.off
  · exact h.onB
  · exact hclear
  · exact hclear'
  · exact hrange
  · rw [h.track]
    exact toNat_track hrange

/-- The start settles the drive. -/
theorem OnlyOn.settledInv {d : Device} {p q : Fin 4} (h : OnlyOn d q) (hpq : Neighbours p q) :
    SettledInv (stepPair d p q) p q := by
  have haged : ∀ i : Fin 4, agedPhases d i = false := by
    intro i
    rw [agedPhases, h.pIdxB]
    split_ifs
    · exact h.phasesB 0
    · exact h.phasesBB i
  have hclear : ∀ i : Fin 4, i ≠ q →
      (stepPair d p q).phasesBB d.currentDrive i = false := by
    intro i hi
    rw [(stepPair_spec d p q).phasesBB]
    split_ifs with hidx
    · rw [← hidx, h.phases, decide_eq_false hi]
    · exact haged i
  obtain ⟨hp, hq, -, -⟩ := phases_circle hpq hpq.symm
  refine (stepPair_spec d p q).settledInv ?_ (hclear _ hp) (hclear _ hq)
  rw [h.head]
  omega

/-- In the older copy of a settled drive, the phase it is settled at is the only one next to
either of its neighbours. -/
theorem SettledInv.agedPhases_eq {d : Device} {q r : Fin 4} (h : SettledInv d q r) :
    agedPhases d q = true ∧ agedPhases d (q + 2 : Fin 4) = false := by
  have hq : ∀ q : Fin 4, ((q + 2 : Fin 4) : ℕ) ≠ q := by decide
  rw [agedPhases, agedPhases, h.pIdxB, if_pos rfl, if_neg (hq q)]
  exact ⟨h.onB, h.clear⟩

/-- A step settles the drive at the next phase. -/
theorem SettledInv.step {d : Device} {p q r : Fin 4} (h : SettledInv d q r)
    (hqr : Neighbours q r) (hpq : Neighbours p q) : SettledInv (stepPair d p q) p q := by
  obtain ⟨hp, -, hqr2, hpr⟩ := phases_circle hpq hqr
  refine (stepPair_spec d p q).settledInv h.head ?_ ?_
  · rw [(stepPair_spec d p q).phasesBB, h.pIdx]
    split_ifs with hr
    · exact h.off
    · have hr2 : p + 2 = r + 2 := hpr.resolve_left fun heq => hr (congrArg Fin.val heq)
      rw [agedPhases, h.pIdxB, if_neg fun heq => hp (Fin.ext heq), hr2]
      exact h.clear'
  · rw [(stepPair_spec d p q).phasesBB, h.pIdx, if_neg fun heq => hqr2 (Fin.ext heq)]
    exact h.agedPhases_eq.2

/-- Every settled drive keeps the invariant. -/
theorem Settled.inv {d : Device} {p q : Fin 4} (h : Settled d p q) :
    SettledInv d p q ∧ Neighbours p q := by
  induction h with
  | start hd hpq => exact ⟨hd.settledInv hpq, hpq⟩
  | step _ hpq ih => exact ⟨ih.1.step ih.2 hpq, hpq⟩

/-- A reset, the selection of a drive and the switch of a phase leave that phase on alone. -/
theorem onlyOn_adReset (d : Device) (drv : ℕ) (q : Fin 4) :
    OnlyOn ((d.adReset.adSetDrv drv).adStepMotor (phaseSwitch q true)) q := by
  have hspec := adStepMotor_spec (d.adReset.adSetDrv drv) q true
  have hcd := hspec.currentDrive
  constructor <;> rw [hcd]
  · intro i
    rw [hspec.phases]
    split_ifs with hi
    · exact (decide_eq_true (Fin.ext hi)).symm
    · exact (decide_eq_false fun heq => hi (congrArg Fin.val heq)).symm
  · intro i
    rw [hspec.phasesB]
    exact ite_self _
  · intro i
    rw [hspec.phasesBB]
    exact ite_self _
  · exact Or.inr hspec.pIdx
  · exact hspec.pIdxB
  · rw [hspec.head, if_pos rfl, headTowards, hspec.phasesBB, hspec.phasesBB]
    simp [adSetDrv, adReset, setDisk]

/-! ### Sequences of steps -/

/-- A step of the head by one half track. -/
inductive HeadStep
  | outwards
  | inwards
deriving DecidableEq, Repr

namespace HeadStep

/-- The phase that a step from phase `q` switches on. -/
def next (q : Fin 4) : HeadStep → Fin 4
  | outwards => q + 1
  | inwards => q - 1

/-- Where a step takes the head. -/
def move (h : ℤ) : HeadStep → ℤ
  | outwards => min 140 (h + 1)
  | inwards => max 0 (h - 1)

theorem neighbours_next (q : Fin 4) (s : HeadStep) : Neighbours (s.next q) q := by
  cases s with
  | outwards => exact Or.inr (phase_next_prev q).1.symm
  | inwards => exact Or.inl (phase_next_prev q).2.1.symm

end HeadStep

/-- A step of a drive that is settled at the phase `x.2`. -/
def headStep (x : Device × Fin 4) (s : HeadStep) : Device × Fin 4 :=
  (stepPair x.1 (s.next x.2) x.2, s.next x.2)

/-- A step moves the head of a settled drive by one half track, up to the ends. -/
theorem SettledInv.head_step {d : Device} {q r : Fin 4} (h : SettledInv d q r) (s : HeadStep) :
    (stepPair d (s.next q) q).halfTrackPos d.currentDrive =
      s.move (d.halfTrackPos d.currentDrive) := by
  obtain ⟨hat, htwo⟩ := h.agedPhases_eq
  obtain ⟨houtBack, hinBack, hout, hin⟩ := phase_next_prev q
  rw [(stepPair_spec d (s.next q) q).head, headTowards]
  cases s with
  | outwards =>
      simp only [HeadStep.next, HeadStep.move, houtBack, hout, hat, htwo, headOut]
      simp only [Bool.false_eq_true, if_false, if_true]
      split_ifs <;> omega
  | inwards =>
      simp only [HeadStep.next, HeadStep.move, hinBack, hin, hat, htwo, headIn]
      simp only [Bool.false_eq_true, if_false, if_true]
      split_ifs <;> omega

/-- **From a settled drive, every sequence of steps, reversals included, takes the head where
the steps add up to, one half track for each and no further than the ends; the track is that of
the head.** -/
theorem headPos_steps {d : Device} {p q : Fin 4} (h : Settled d p q) (l : List HeadStep) :
    let d' := (l.foldl headStep (d, p)).1
    d'.halfTrackPos d.currentDrive = l.foldl HeadStep.move (d.halfTrackPos d.currentDrive) ∧
      ((d'.disk d.currentDrive).track.toNat : ℤ) =
        (d'.halfTrackPos d.currentDrive + 1) / 2 := by
  induction l generalizing d p q with
  | nil => exact ⟨rfl, h.inv.1.track⟩
  | cons s l ih =>
      have hnext := ih (h.step (s.neighbours_next p))
      rw [(stepPair_spec d (s.next p) p).currentDrive, h.inv.1.head_step s] at hnext
      exact hnext

/-- Two steps out and one in, from a drive that has been reset and settled at phase 1. -/
theorem headPos_steps_reversal :
    let start := (Device.initial.adReset.adSetDrv 0).adStepMotor (phaseSwitch 0 true)
    let d := stepPair start 1 0
    let d' := ([.outwards, .outwards, .inwards].foldl headStep (d, 1)).1
    d'.halfTrackPos d.currentDrive =
        [.outwards, .outwards, .inwards].foldl HeadStep.move (d.halfTrackPos d.currentDrive) ∧
      ((d'.disk d.currentDrive).track.toNat : ℤ) =
        (d'.halfTrackPos d.currentDrive + 1) / 2 :=
  headPos_steps (.start (onlyOn_adReset .initial 0 0) (Or.inr rfl))
    [.outwards, .outwards, .inwards]

end B2OS
