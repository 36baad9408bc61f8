import Mathlib.Logic.Function.Basic

/-!
# Units behind a Selector

Several units hang on the same lines, and a selector says which of them listens. A command changes
the state of the lines, with what the selected unit answers, and the selected unit; the selector is
part of the lines.

A unit knows nothing of the others: it does what it was told while it was selected.

## Main results

* `run_unit`: a unit behind the selector is the unit alone, with the commands that it was told.
-/

universe u v w

/-- What a command does to the lines and to the unit that listens. -/
structure Selector (ι : Type) (S : Type u) (U : Type v) (C : Type w) where
  selected : S → ι
  shared : C → S → U → S
  unit : C → S → U → U

namespace Selector

variable {ι : Type} {S : Type u} {U : Type v} {C : Type w} [DecidableEq ι] (b : Selector ι S U C)

/-- One command to the lines `x.1` with the units `x.2`. -/
def step (x : S × (ι → U)) (c : C) : S × (ι → U) :=
  (b.shared c x.1 (x.2 (b.selected x.1)),
    Function.update x.2 (b.selected x.1) (b.unit c x.1 (x.2 (b.selected x.1))))

def run (x : S × (ι → U)) (l : List C) : S × (ι → U) := l.foldl b.step x

/-- The commands that the unit `i` is told, each with the lines as they are then. -/
def told (i : ι) : S × (ι → U) → List C → List (C × S)
  | _, [] => []
  | x, c :: l =>
      if b.selected x.1 = i then (c, x.1) :: told i (b.step x c) l else told i (b.step x c) l

/-- The unit alone. -/
def alone (u : U) (l : List (C × S)) : U := l.foldl (fun u p => b.unit p.1 p.2 u) u

variable {b} {i : ι} {x : S × (ι → U)} {l : List C}

theorem step_unit_self (c : C) (h : b.selected x.1 = i) :
    (b.step x c).2 i = b.unit c x.1 (x.2 i) := by
  obtain rfl := h
  exact Function.update_self _ _ _

theorem step_unit_of_ne (c : C) (h : b.selected x.1 ≠ i) : (b.step x c).2 i = x.2 i :=
  Function.update_of_ne (Ne.symm h) _ _

/-- **A unit behind the selector is the unit alone**, with the commands that it was told. -/
theorem run_unit : (b.run x l).2 i = b.alone (x.2 i) (b.told i x l) := by
  induction l generalizing x with
  | nil => rfl
  | cons c l ih =>
      by_cases h : b.selected x.1 = i
      · rw [told, if_pos h, alone, List.foldl_cons, ← step_unit_self c h]
        exact ih
      · rw [told, if_neg h, ← step_unit_of_ne c h]
        exact ih

end Selector
