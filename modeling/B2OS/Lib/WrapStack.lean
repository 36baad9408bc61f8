import Mathlib.Data.BitVec

/-!
# Stacks with a Wrapping Pointer

A stack in `2 ^ w` cells whose pointer is a `w`-bit word that names the next free cell,
grows downwards and wraps at both ends. `Holds cells sp xs` says that the entries `xs`,
top first, are what the stack above `sp` holds; the cells are given as a function, so that
they may lie anywhere.

## Main results

* `Holds.push`: storing at the pointer and lowering it pushes, while a cell is free.
* `Holds.top`, `Holds.pop`: the cell above the pointer is the top, and raising the pointer
  uncovers the rest.
-/

namespace WrapStack

variable {w : ℕ} {β : Type}

/-- The stack above `sp` holds `xs`, top first. -/
structure Holds (cells : BitVec w → β) (sp : BitVec w) (xs : List β) : Prop where
  fits : xs.length ≤ 2 ^ w
  cell : ∀ (i : ℕ) (h : i < xs.length), cells (sp + BitVec.ofNat w (i + 1)) = xs[i]

theorem Holds.nil (cells : BitVec w → β) (sp : BitVec w) : Holds cells sp [] where
  fits := Nat.zero_le _
  cell i h := absurd h (Nat.not_lt_zero i)

theorem Holds.congr {cells cells' : BitVec w → β} {sp : BitVec w} {xs : List β}
    (h : Holds cells sp xs) (heq : ∀ i, cells' i = cells i) : Holds cells' sp xs where
  fits := h.fits
  cell i hi := by rw [heq, h.cell i hi]

/-- Within the capacity of the stack no entry lies in the free cell. -/
theorem add_ofNat_ne {sp : BitVec w} {i : ℕ} (hi : i + 1 < 2 ^ w) :
    sp + BitVec.ofNat w (i + 1) ≠ sp := by
  intro h
  have hzero : BitVec.ofNat w (i + 1) = 0#w := by simpa using h
  have hval := congrArg BitVec.toNat hzero
  rw [BitVec.toNat_ofNat, Nat.mod_eq_of_lt hi] at hval
  simp at hval

/-- Store at the pointer, then lower it. -/
theorem Holds.push {cells cells' : BitVec w → β} {sp : BitVec w} {xs : List β} {v : β}
    (h : Holds cells sp xs) (hfree : xs.length < 2 ^ w) (hv : cells' sp = v)
    (hother : ∀ i, i ≠ sp → cells' i = cells i) : Holds cells' (sp - 1) (v :: xs) where
  fits := hfree
  cell i hi := by
    cases i with
    | zero => simpa using hv
    | succ i =>
        have hlen : i < xs.length := by simpa using hi
        have haddr : sp - 1#w + BitVec.ofNat w (i + 1 + 1)
            = sp + BitVec.ofNat w (i + 1) := by
          rw [BitVec.ofNat_add (i + 1) 1, BitVec.add_comm _ (BitVec.ofNat w 1),
            ← BitVec.add_assoc, BitVec.sub_add_cancel]
        have hcell := h.cell i hlen
        rw [← hother _ (add_ofNat_ne (by omega)), ← haddr] at hcell
        simpa using hcell

theorem Holds.top {cells : BitVec w → β} {sp : BitVec w} {xs : List β} {v : β}
    (h : Holds cells sp (v :: xs)) : cells (sp + 1) = v :=
  h.cell 0 (Nat.succ_pos xs.length)

/-- Raise the pointer. -/
theorem Holds.pop {cells : BitVec w → β} {sp : BitVec w} {xs : List β} {v : β}
    (h : Holds cells sp (v :: xs)) : Holds cells (sp + 1) xs where
  fits := by
    have hfits := h.fits
    rw [List.length_cons] at hfits
    omega
  cell i hi := by
    have hcell := h.cell (i + 1) (by simpa using hi)
    rw [BitVec.ofNat_add (i + 1) 1, BitVec.add_comm _ (BitVec.ofNat w 1),
      ← BitVec.add_assoc] at hcell
    simpa using hcell

end WrapStack
