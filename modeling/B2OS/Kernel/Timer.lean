import Mathlib.Data.BitVec
import Mathlib.Logic.Function.Iterate

/-!
# The Timer

This module embeds `timer_callback` and `k_sleep` of `Src/timer.c`. The interrupts of the timer come
at any point of the loop of `k_sleep`, so that a run of it is given by how many of them come before
each of its reads of `global_tick`.

`k_sleep` works out the tick at which it wakes up, and compares it with the counter. When this sum
wraps around, it is behind the counter from the start, and `k_sleep` returns at once.

## Main results

* `interrupts_seconds`: the seconds are the thousands of the ticks, until the counter wraps around.
* `kSleep_spec`: what the timer is when `k_sleep` returns.
* `waits_iff`: `k_sleep` waits for its ticks exactly when its deadline does not wrap around.
-/

namespace B2OS.Timer

/-- The counters of `timer.c`. -/
structure Counters where
  global_tick : BitVec 32
  global_seconds : BitVec 32

/-- The handler of the timer's interrupt. -/
def timerCallback (s : Counters) : Counters :=
  let s := { s with global_tick := s.global_tick + 1 }
  if s.global_tick % 1000 = 0 then { s with global_seconds := s.global_seconds + 1 } else s

/-- The loop of `k_sleep`. The list has the number of the interrupts before each read; the result is
the timer at the return with the number of the interrupts since the call, and `none` when the loop
is still waiting. -/
def sleepLoop (deadline : BitVec 32) : List ℕ → ℕ → Counters → Option (Counters × ℕ)
  | [], _, _ => none
  | n :: reads, counted, s =>
      let s := timerCallback^[n] s
      if s.global_tick < deadline then sleepLoop deadline reads (counted + n) s
      else some (s, counted + n)

def kSleep (waitticks : BitVec 32) (reads : List ℕ) (s : Counters) : Option (Counters × ℕ) :=
  let startTicks := s.global_tick
  sleepLoop (startTicks + waitticks) reads 0 s

/-! ### The counters -/

@[simp] theorem timerCallback_tick (s : Counters) :
    (timerCallback s).global_tick = s.global_tick + 1 := by
  rw [timerCallback]
  split_ifs <;> rfl

theorem interrupts_tick (n : ℕ) (s : Counters) :
    (timerCallback^[n] s).global_tick = s.global_tick + BitVec.ofNat 32 n := by
  induction n with
  | zero => exact (BitVec.add_zero _).symm
  | succ n ih =>
      rw [Function.iterate_succ_apply', timerCallback_tick, ih, BitVec.add_assoc, BitVec.ofNat_add]
      rfl

/-- From the start of the system on, the seconds are the thousands of the ticks. -/
theorem interrupts_seconds {n : ℕ} (hn : n < 2 ^ 32) :
    (timerCallback^[n] ⟨0, 0⟩).global_seconds.toNat = n / 1000 := by
  induction n with
  | zero => rfl
  | succ n ih =>
      have hone : (1 : BitVec 32).toNat = 1 := rfl
      have hseconds := ih (by omega)
      have htick : ((timerCallback^[n] ⟨0, 0⟩).global_tick + 1).toNat = n + 1 := by
        have hzero : (0 : BitVec 32) + BitVec.ofNat 32 n = BitVec.ofNat 32 n := BitVec.zero_add _
        rw [interrupts_tick, hzero, BitVec.toNat_add, BitVec.toNat_ofNat, hone]
        omega
      have hthousand : ((timerCallback^[n] ⟨0, 0⟩).global_tick + 1) % 1000 = 0 ↔
          (n + 1) % 1000 = 0 := by
        rw [← BitVec.toNat_inj, BitVec.toNat_umod, htick]
        rfl
      rw [Function.iterate_succ_apply', timerCallback]
      simp only [hthousand]
      split_ifs
      · rw [BitVec.toNat_add, hseconds, hone]
        omega
      · rw [hseconds]
        omega

/-! ### Sleeping -/

/-- The loop returns in a state where the deadline is not ahead. -/
theorem sleepLoop_spec {deadline : BitVec 32} {reads : List ℕ} {counted m : ℕ} {s t : Counters}
    (h : sleepLoop deadline reads counted (timerCallback^[counted] s) = some (t, m)) :
    t = timerCallback^[m] s ∧ deadline ≤ t.global_tick := by
  induction reads generalizing counted with
  | nil => cases h
  | cons n reads ih =>
      rw [sleepLoop] at h
      simp only [← Function.iterate_add_apply, Nat.add_comm n] at h
      split_ifs at h with hahead
      · exact ih h
      · obtain ⟨rfl, rfl⟩ := Prod.mk.inj (Option.some.inj h)
        exact ⟨rfl, BitVec.not_lt.mp hahead⟩

/-- When `k_sleep` returns, the timer has counted the interrupts, and its deadline has come. -/
theorem kSleep_spec {waitticks : BitVec 32} {reads : List ℕ} {m : ℕ} {s t : Counters}
    (h : kSleep waitticks reads s = some (t, m)) :
    t = timerCallback^[m] s ∧ s.global_tick + waitticks ≤ t.global_tick := by
  have hrun : sleepLoop (s.global_tick + waitticks) reads 0 (timerCallback^[0] s) = some (t, m) := h
  exact sleepLoop_spec hrun

/-- However the interrupts fall between the reads, `k_sleep` returns only after it has waited for
`waitticks` of them. -/
def Waits (waitticks : BitVec 32) (s : Counters) : Prop :=
  ∀ reads t m, kSleep waitticks reads s = some (t, m) → waitticks.toInt ≤ m

theorem toInt_eq_toNat {v : BitVec 32} (h : 0 ≤ v.toInt) : v.toInt = v.toNat := by
  rw [BitVec.toInt_eq_toNat_cond] at h ⊢
  split_ifs at h ⊢
  · rfl
  · omega

/-- A deadline that does not wrap around comes after `waitticks` interrupts. -/
theorem waits_of_lt {waitticks : BitVec 32} {s : Counters} (hwait : 0 ≤ waitticks.toInt)
    (hlt : s.global_tick.toNat + waitticks.toNat < 2 ^ 32) : Waits waitticks s := by
  intro reads t m hrun
  obtain ⟨rfl, hdeadline⟩ := kSleep_spec hrun
  rw [interrupts_tick, BitVec.le_def, BitVec.toNat_add, BitVec.toNat_add,
    BitVec.toNat_ofNat, Nat.mod_eq_of_lt hlt] at hdeadline
  rw [toInt_eq_toNat hwait, Int.ofNat_le]
  by_contra hfew
  omega

/-- A deadline that wraps around has come before the first interrupt. -/
theorem kSleep_of_le {waitticks : BitVec 32} {s : Counters}
    (hwrap : 2 ^ 32 ≤ s.global_tick.toNat + waitticks.toNat) :
    kSleep waitticks [0] s = some (s, 0) := by
  have htick := s.global_tick.isLt
  have hticks := waitticks.isLt
  have hcome : ¬ s.global_tick < s.global_tick + waitticks := by
    rw [BitVec.lt_def, BitVec.toNat_add]
    omega
  rw [kSleep, sleepLoop]
  exact if_neg hcome

/-- **The deadline may wrap around**: `k_sleep` waits for its ticks exactly when the tick that it
waits for is one of the counter. -/
theorem waits_iff {waitticks : BitVec 32} {s : Counters} (hwait : 0 ≤ waitticks.toInt) :
    Waits waitticks s ↔ s.global_tick.toNat + waitticks.toNat < 2 ^ 32 := by
  refine ⟨fun h => ?_, waits_of_lt hwait⟩
  by_contra hwrap
  have htick := s.global_tick.isLt
  have hzero := h [0] s 0 (kSleep_of_le (by omega))
  rw [toInt_eq_toNat hwait] at hzero
  omega

/-- A hundred ticks from the start of the system. -/
theorem waits_start : Waits 100 ⟨0, 0⟩ := (waits_iff (by decide)).mpr (by decide)

/-- A hundred ticks from the last tick before the counter wraps around. -/
theorem not_waits_wrap : ¬ Waits 100 ⟨0xFFFFFFFF, 4294967⟩ := by
  intro h
  have hzero := h [0] ⟨0xFFFFFFFF, 4294967⟩ 0 rfl
  exact absurd hzero (by decide)

end B2OS.Timer
