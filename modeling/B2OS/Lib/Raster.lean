import B2OS.Lib.Run

/-!
# Pictures in Linear Memory

A picture of width `W` in a linear buffer: the pixel at column `x` and row `y` is the cell
`y * W + x`. A block is plotted by two nested loops.

## Main results

* `pixel_plot`: plotting a pixel changes that pixel only.
* `pixel_plotBlock`: plotting a block changes the pixels of the block only.
-/

namespace Raster

universe u

variable {α : Type u} {W : ℕ}

/-- The pixel at column `x` and row `y`. -/
def pixel (W : ℕ) (buf : ℕ → α) (x y : ℕ) : α := buf (y * W + x)

/-- Setting a pixel. -/
def plot (W x y : ℕ) (v : α) (buf : ℕ → α) : ℕ → α :=
  fun i => if i = y * W + x then v else buf i

/-- Pixels within the width have their own cells. -/
theorem index_inj {x y x' y' : ℕ} (hx : x < W) (hx' : x' < W) :
    y * W + x = y' * W + x' ↔ x = x' ∧ y = y' := by
  constructor
  · intro h
    have hcol : x = x' := by
      have hmod := congrArg (· % W) h
      simpa only [Nat.mul_add_mod_of_lt hx, Nat.mul_add_mod_of_lt hx'] using hmod
    subst hcol
    exact ⟨rfl, Nat.eq_of_mul_eq_mul_right (Nat.zero_lt_of_lt hx) (Nat.add_right_cancel h)⟩
  · rintro ⟨rfl, rfl⟩
    rfl

/-- Plotting a pixel changes that pixel only. -/
theorem pixel_plot {x y x' y' : ℕ} (hx : x < W) (hx' : x' < W) (v : α) (buf : ℕ → α) :
    pixel W (plot W x y v buf) x' y' = if x' = x ∧ y' = y then v else pixel W buf x' y' := by
  simp only [pixel, plot, index_inj hx' hx]

/-- The loops over the rows and the columns of a block. -/
def plotBlock (W x y width height : ℕ) (f : ℕ → ℕ → α) (buf : ℕ → α) : ℕ → α :=
  forUpTo (fun dy buf => forUpTo (fun dx buf => plot W (x + dx) (y + dy) (f dx dy) buf) width buf)
    height buf

/-- Plotting a row of a block. -/
theorem pixel_plotRow {x y width x' y' : ℕ} (hx : x + width ≤ W) (hx' : x' < W) (f : ℕ → α)
    (buf : ℕ → α) :
    pixel W (forUpTo (fun dx buf => plot W (x + dx) y (f dx) buf) width buf) x' y' =
      if (x ≤ x' ∧ x' < x + width) ∧ y' = y then f (x' - x) else pixel W buf x' y' := by
  have hloop := forUpTo_cell (fun _ _ => True) (fun buf => pixel W buf x' y') (j := x' - x)
    (P := x ≤ x' ∧ y' = y) (v := f (x' - x)) (n := width) (a := buf)
    (f := fun dx buf => plot W (x + dx) y (f dx) buf) trivial (fun _ _ _ _ => trivial) ?_
  · rw [hloop]
    refine if_congr ?_ rfl rfl
    omega
  · intro dx hdx buf _
    rw [pixel_plot (by omega) hx']
    have hiff : (x' = x + dx ∧ y' = y) ↔ (dx = x' - x ∧ x ≤ x' ∧ y' = y) := by omega
    rw [if_congr hiff rfl rfl]
    split_ifs with hdot
    · rw [hdot.1]
    · rfl

/-- Plotting a block changes the pixels of the block only. -/
theorem pixel_plotBlock {x y width height x' y' : ℕ} (hx : x + width ≤ W) (hx' : x' < W)
    (f : ℕ → ℕ → α) (buf : ℕ → α) :
    pixel W (plotBlock W x y width height f buf) x' y' =
      if (x ≤ x' ∧ x' < x + width) ∧ y ≤ y' ∧ y' < y + height then f (x' - x) (y' - y)
      else pixel W buf x' y' := by
  have hloop := forUpTo_cell (fun _ _ => True) (fun buf => pixel W buf x' y') (j := y' - y)
    (P := (x ≤ x' ∧ x' < x + width) ∧ y ≤ y') (v := f (x' - x) (y' - y)) (n := height) (a := buf)
    (f := fun dy buf =>
      forUpTo (fun dx buf => plot W (x + dx) (y + dy) (f dx dy) buf) width buf)
    trivial (fun _ _ _ _ => trivial) ?_
  · rw [plotBlock, hloop]
    refine if_congr ?_ rfl rfl
    omega
  · intro dy hdy buf _
    rw [pixel_plotRow hx hx' fun dx => f dx dy]
    have hiff : ((x ≤ x' ∧ x' < x + width) ∧ y' = y + dy) ↔
        (dy = y' - y ∧ (x ≤ x' ∧ x' < x + width) ∧ y ≤ y') := by omega
    rw [if_congr hiff rfl rfl]
    split_ifs with hrow
    · rw [hrow.1]
    · rfl

end Raster
