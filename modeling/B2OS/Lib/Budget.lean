import Mathlib.Algebra.Order.BigOperators.Group.Finset
import Mathlib.Data.Nat.Find
import Mathlib.Logic.Function.Iterate

/-!
# Loops that Run on a Budget

A machine steps, every step costs something, and a loop runs the machine while a budget
lasts. The budget is an unsigned word: the loop stops when it is zero, and a step that
costs more than is left wraps the word around, which the loop notices because the word
has grown.

`Budget.loop` is that loop with fuel. Its exit is described by the machine running freely,
without a budget: `spent step cost x k` is what the first `k` steps from `x` cost.

## Main results

* `Budget.loop_eq_some_iff`: the loop leaves after the first number of steps whose cost
  reaches the budget, in the state of the free run, with the difference.
* `Budget.loop_terminates_iff`: the loop ends exactly when some number of free steps
  costs as much as the budget.
-/

universe u

/-- What a loop on a budget leaves: how often it went round, the final budget and the
final state. -/
structure LoopExit (w : ℕ) (τ : Type u) where
  iterations : ℕ
  budget : BitVec w
  state : τ

namespace Budget

variable {τ : Type u} {w : ℕ}

/-- The cost of the first `k` steps from `x`. -/
def spent (step : τ → τ) (cost : τ → ℕ) (x : τ) (k : ℕ) : ℕ :=
  ∑ i ∈ Finset.range k, cost (step^[i] x)

variable {step : τ → τ} {cost : τ → ℕ} {x : τ}

@[simp] theorem spent_zero : spent step cost x 0 = 0 := rfl

/-- The first step, then the rest from where it leads. -/
theorem spent_succ' (k : ℕ) :
    spent step cost x (k + 1) = cost x + spent step cost (step x) k := by
  simp only [spent, Finset.sum_range_succ', Function.iterate_zero, id_eq,
    Function.iterate_succ_apply]
  exact Nat.add_comm _ _

/-- All steps but the last, then the last. -/
theorem spent_succ (k : ℕ) :
    spent step cost x (k + 1) = spent step cost x k + cost (step^[k] x) :=
  Finset.sum_range_succ _ _

/-- Costs that are smaller step by step add up to less. -/
theorem spent_lt_spent {cost' : τ → ℕ} {k : ℕ} (hk : 0 < k)
    (h : ∀ i < k, cost (step^[i] x) < cost' (step^[i] x)) :
    spent step cost x k < spent step cost' x k :=
  Finset.sum_lt_sum_of_nonempty ⟨0, Finset.mem_range.mpr hk⟩
    fun i hi => h i (Finset.mem_range.mp hi)

/-- While the budget is positive: step, pay, and leave if the budget has wrapped. -/
def loop (step : τ → τ) (cost : τ → ℕ) : ℕ → BitVec w → τ → Option (LoopExit w τ)
  | 0, _, _ => none
  | fuel + 1, n, x =>
      if n > 0 then
        let n' := n - BitVec.ofNat w (cost x)
        if n < n' then some ⟨1, n', step x⟩
        else (loop step cost fuel n' (step x)).map fun r =>
          { r with iterations := r.iterations + 1 }
      else some ⟨0, n, x⟩

/-- `k` is the first number of steps from `x` whose cost reaches the budget `n`. -/
def FirstReach (step : τ → τ) (cost : τ → ℕ) (n : ℕ) (x : τ) (k : ℕ) : Prop :=
  n ≤ spent step cost x k ∧ ∀ j < k, spent step cost x j < n

theorem firstReach_zero {n : ℕ} : FirstReach step cost n x 0 ↔ n = 0 := by
  simp [FirstReach]

/-- With a positive budget the first step is taken, and the rest is reached on what it
leaves of the budget. -/
theorem firstReach_succ {n k : ℕ} (hn : 0 < n) :
    FirstReach step cost n x (k + 1) ↔
      FirstReach step cost (n - cost x) (step x) k ∧ (cost x < n ∨ k = 0) := by
  constructor
  · rintro ⟨hreach, hfirst⟩
    rw [spent_succ'] at hreach
    refine ⟨⟨by omega, fun j hj => ?_⟩, ?_⟩
    · have := hfirst (j + 1) (by omega)
      rw [spent_succ'] at this
      omega
    · by_cases hk : k = 0
      · exact .inr hk
      · have := hfirst 1 (by omega)
        rw [spent_succ', spent_zero] at this
        exact .inl (by omega)
  · rintro ⟨⟨hreach, hfirst⟩, hfirst'⟩
    refine ⟨by rw [spent_succ']; omega, fun j hj => ?_⟩
    cases j with
    | zero => simpa using hn
    | succ j =>
        have := hfirst j (by omega)
        rw [spent_succ']
        omega

theorem FirstReach.unique {n k k' : ℕ} (h : FirstReach step cost n x k)
    (h' : FirstReach step cost n x k') : k = k' := by
  rcases Nat.lt_trichotomy k k' with hlt | heq | hlt
  · have := h'.2 k hlt
    have := h.1
    omega
  · exact heq
  · have := h.2 k' hlt
    have := h'.1
    omega

/-- The word that is left when a cost is paid: the difference, or a larger word. -/
theorem pay_lt_iff {n : BitVec w} {a : ℕ} (ha : a < 2 ^ w) :
    n < n - BitVec.ofNat w a ↔ n.toNat < a := by
  have hn := n.isLt
  rw [BitVec.lt_def, BitVec.toNat_sub, BitVec.toNat_ofNat, Nat.mod_eq_of_lt ha]
  by_cases h : a ≤ n.toNat
  · rw [show 2 ^ w - a + n.toNat = n.toNat - a + 2 ^ w by omega, Nat.add_mod_right,
      Nat.mod_eq_of_lt (by omega)]
    omega
  · rw [Nat.mod_eq_of_lt (by omega)]
    omega

theorem pay_toNat {n : BitVec w} {a : ℕ} (h : a ≤ n.toNat) :
    (n - BitVec.ofNat w a).toNat = n.toNat - a := by
  have hn := n.isLt
  have ha : a % 2 ^ w = a := Nat.mod_eq_of_lt (by omega)
  rw [BitVec.toNat_sub, BitVec.toNat_ofNat, ha,
    show 2 ^ w - a + n.toNat = n.toNat - a + 2 ^ w by omega, Nat.add_mod_right,
    Nat.mod_eq_of_lt (by omega)]

/-! ### What one round of the loop does -/

section Round

variable {n : BitVec w} (fuel : ℕ)

theorem loop_stop (hn : n.toNat = 0) :
    loop step cost (fuel + 1) n x = some ⟨0, n, x⟩ := by
  have hpos : ¬ n > 0 := by simp [BitVec.lt_def, hn]
  rw [loop, if_neg hpos]

theorem loop_overdraw (hcost : cost x < 2 ^ w) (hn : 0 < n.toNat) (h : n.toNat < cost x) :
    loop step cost (fuel + 1) n x = some ⟨1, n - BitVec.ofNat w (cost x), step x⟩ := by
  have hpos : n > 0 := by simpa [BitVec.lt_def] using hn
  rw [loop, if_pos hpos]
  exact if_pos ((pay_lt_iff hcost).mpr h)

theorem loop_continue (hcost : cost x < 2 ^ w) (hn : 0 < n.toNat) (h : cost x ≤ n.toNat) :
    loop step cost (fuel + 1) n x =
      (loop step cost fuel (n - BitVec.ofNat w (cost x)) (step x)).map fun r =>
        { r with iterations := r.iterations + 1 } := by
  have hpos : n > 0 := by simpa [BitVec.lt_def] using hn
  rw [loop, if_pos hpos]
  exact if_neg fun hwrap => absurd ((pay_lt_iff hcost).mp hwrap) (by omega)

end Round

/-- More fuel changes nothing once the loop has left. -/
theorem loop_mono {fuel fuel' : ℕ} (hle : fuel ≤ fuel') {n : BitVec w} {r : LoopExit w τ}
    (h : loop step cost fuel n x = some r) : loop step cost fuel' n x = some r := by
  induction fuel generalizing fuel' n x r with
  | zero => simp [loop] at h
  | succ fuel ih =>
      obtain ⟨fuel', rfl⟩ := Nat.exists_eq_add_of_le' (Nat.one_le_of_lt hle)
      simp only [loop] at h ⊢
      split_ifs at h ⊢
      · exact h
      · obtain ⟨r', hr', rfl⟩ := Option.map_eq_some_iff.mp h
        rw [ih (Nat.le_of_succ_le_succ hle) hr']
        rfl
      · exact h

/-- What the loop leaves is described by the free run. -/
theorem loop_sound (hcost : ∀ x, cost x < 2 ^ w) {fuel : ℕ} {n : BitVec w}
    {r : LoopExit w τ} (h : loop step cost fuel n x = some r) :
    FirstReach step cost n.toNat x r.iterations ∧
      r.budget = n - BitVec.ofNat w (spent step cost x r.iterations) ∧
      r.state = step^[r.iterations] x := by
  induction fuel generalizing n x r with
  | zero => simp [loop] at h
  | succ fuel ih =>
      by_cases hn : n.toNat = 0
      · rw [loop_stop fuel hn, Option.some.injEq] at h
        subst h
        exact ⟨firstReach_zero.mpr hn, by simp, rfl⟩
      have hpos : 0 < n.toNat := by omega
      by_cases hover : n.toNat < cost x
      · rw [loop_overdraw fuel (hcost x) hpos hover, Option.some.injEq] at h
        subst h
        refine ⟨(firstReach_succ hpos).mpr ⟨firstReach_zero.mpr (by omega), .inr rfl⟩, ?_, rfl⟩
        rw [spent_succ', spent_zero, Nat.add_zero]
      · rw [not_lt] at hover
        rw [loop_continue fuel (hcost x) hpos hover, Option.map_eq_some_iff] at h
        obtain ⟨r', hr', rfl⟩ := h
        obtain ⟨hfirst, hbudget, hstate⟩ := ih hr'
        rw [pay_toNat hover] at hfirst
        refine ⟨(firstReach_succ hpos).mpr ⟨hfirst, ?_⟩, ?_, ?_⟩
        · by_cases hk : r'.iterations = 0
          · exact .inr hk
          · have := hfirst.2 0 (by omega)
            rw [spent_zero] at this
            exact .inl (by omega)
        · rw [hbudget, spent_succ', BitVec.ofNat_add, BitVec.sub_sub]
        · rw [hstate, Function.iterate_succ_apply]

/-- With enough fuel the loop gets to the first number of steps that reaches the
budget. -/
theorem loop_complete (hcost : ∀ x, cost x < 2 ^ w) {n : BitVec w} {k : ℕ}
    (h : FirstReach step cost n.toNat x k) :
    ∃ fuel, loop step cost fuel n x =
      some ⟨k, n - BitVec.ofNat w (spent step cost x k), step^[k] x⟩ := by
  induction k generalizing n x with
  | zero =>
      refine ⟨1, ?_⟩
      rw [loop_stop 0 (firstReach_zero.mp h)]
      simp
  | succ k ih =>
      have hn : 0 < n.toNat := by simpa using h.2 0 (Nat.succ_pos k)
      obtain ⟨hrest, hk⟩ := (firstReach_succ hn).mp h
      by_cases hover : n.toNat < cost x
      · obtain rfl : k = 0 := by omega
        refine ⟨1, ?_⟩
        rw [loop_overdraw 0 (hcost x) hn hover, spent_succ', spent_zero, Nat.add_zero]
        rfl
      · rw [not_lt] at hover
        rw [← pay_toNat hover] at hrest
        obtain ⟨fuel, hloop⟩ := ih hrest
        refine ⟨fuel + 1, ?_⟩
        rw [loop_continue fuel (hcost x) hn hover, hloop, spent_succ', BitVec.ofNat_add,
          ← BitVec.sub_sub, Function.iterate_succ_apply]
        rfl

/-- The loop leaves after the first number of steps whose cost reaches the budget, in the
state of the free run, with the budget less the cost. -/
theorem loop_eq_some_iff (hcost : ∀ x, cost x < 2 ^ w) {n : BitVec w} {r : LoopExit w τ} :
    (∃ fuel, loop step cost fuel n x = some r) ↔
      FirstReach step cost n.toNat x r.iterations ∧
        r.budget = n - BitVec.ofNat w (spent step cost x r.iterations) ∧
        r.state = step^[r.iterations] x := by
  constructor
  · rintro ⟨fuel, h⟩
    exact loop_sound hcost h
  · obtain ⟨k, budget, state⟩ := r
    rintro ⟨hfirst, hbudget, hstate⟩
    obtain ⟨fuel, hloop⟩ := loop_complete hcost hfirst
    dsimp only at hbudget hstate
    exact ⟨fuel, by rw [hloop, hbudget, hstate]⟩

/-- The loop ends exactly when some number of free steps costs as much as the budget. -/
theorem loop_terminates_iff (hcost : ∀ x, cost x < 2 ^ w) {n : BitVec w} :
    (∃ fuel r, loop step cost fuel n x = some r) ↔
      ∃ k, n.toNat ≤ spent step cost x k := by
  constructor
  · rintro ⟨fuel, r, h⟩
    exact ⟨_, ((loop_eq_some_iff hcost).mp ⟨fuel, h⟩).1.1⟩
  · intro h
    classical
    have hfirst : FirstReach step cost n.toNat x (Nat.find h) :=
      ⟨Nat.find_spec h, fun j hj => Nat.lt_of_not_le (Nat.find_min h hj)⟩
    obtain ⟨fuel, hloop⟩ := loop_complete hcost hfirst
    exact ⟨fuel, _, hloop⟩

end Budget
