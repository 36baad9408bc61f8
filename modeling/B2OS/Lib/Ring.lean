import Mathlib.Data.Nat.ModEq
import Mathlib.Logic.Function.Basic

/-!
# Rings in Linear Memory

A ring of `n` cells lies at `base` in a memory. A head stands at a position of the ring, and
every access moves it on by one cell, around the end. `cell` is where the head is after a number
of turns.

## Main results

* `cell_inj`: fewer than `n` turns apart, the head is at different cells.
* `writeAll_cell`, `writeAll_of_ne`: writing a list of at most `n` values leaves the values in
  the cells that the head passes, and every other cell as it was.
-/

universe u

namespace Ring

/-- Where the head is `turns` accesses after it was at `pos`. -/
def cell (n base pos turns : ℕ) : ℕ := base + (pos + turns) % n

variable {β : Type u} {n base pos : ℕ}

theorem cell_lt (hn : 0 < n) (turns : ℕ) : cell n base pos turns < base + n :=
  Nat.add_lt_add_left (Nat.mod_lt _ hn) base

theorem le_cell (turns : ℕ) : base ≤ cell n base pos turns := Nat.le_add_right _ _

/-- A whole turn of the ring leads back. -/
theorem cell_add_ring (turns : ℕ) : cell n base pos (n + turns) = cell n base pos turns := by
  rw [cell, cell, Nat.add_left_comm, Nat.add_mod_left]

/-- Fewer than `n` turns apart, the head is at different cells. -/
theorem cell_inj {i j : ℕ} (hi : i < n) (hj : j < n)
    (h : cell n base pos i = cell n base pos j) : i = j := by
  have hmod : (pos + i) ≡ (pos + j) [MOD n] := Nat.add_left_cancel h
  exact Nat.ModEq.eq_of_lt_of_lt (Nat.ModEq.add_left_cancel' pos hmod) hi hj

/-- Write a list, one value for each turn, from the turn `start` on. -/
def writeAll (n base pos : ℕ) : ℕ → List β → (ℕ → β) → ℕ → β
  | _, [], a => a
  | start, v :: l, a =>
      writeAll n base pos (start + 1) l (Function.update a (cell n base pos start) v)

/-- A cell that the head does not pass is as it was. -/
theorem writeAll_of_ne {i : ℕ} (l : List β) (start : ℕ) (a : ℕ → β)
    (h : ∀ j < l.length, i ≠ cell n base pos (start + j)) :
    writeAll n base pos start l a i = a i := by
  induction l generalizing start a with
  | nil => rfl
  | cons v l ih =>
      have hne : i ≠ cell n base pos start := h 0 (Nat.succ_pos _)
      rw [writeAll, ih, Function.update_of_ne hne]
      intro j hj
      have hnext := h (j + 1) (Nat.succ_lt_succ hj)
      rwa [Nat.add_comm j 1, ← Nat.add_assoc] at hnext

/-- A cell that the head passes holds the value of its turn. -/
theorem writeAll_cell {j : ℕ} (l : List β) (start : ℕ) (a : ℕ → β) (hl : start + l.length ≤ n)
    (hj : j < l.length) : writeAll n base pos start l a (cell n base pos (start + j)) = l[j] := by
  induction l generalizing start a j with
  | nil => cases hj
  | cons v l ih =>
      rw [List.length_cons] at hl hj
      cases j with
      | zero =>
          rw [writeAll, writeAll_of_ne]
          · exact Function.update_self _ _ _
          · intro j hj heq
            have hturn := cell_inj (by omega) (by omega) heq
            omega
      | succ j =>
          have hrest := ih (start + 1) (Function.update a (cell n base pos start) v)
            (by omega) (Nat.lt_of_succ_lt_succ hj)
          rwa [Nat.add_assoc, Nat.add_comm 1 j] at hrest

end Ring
