import Mathlib.Data.BitVec

/-!
# Bitmaps with One Bit a Pixel

The rows of a bitmap lie one behind the other, the bottom row first, and each is padded to whole
words. A byte of a row holds eight pixels, the leftmost in its highest bit.

## Main results

* `byte_ext`: a byte is its eight bits.
* `pixels_eq_iff`: two row lengths give the same pixels exactly when the bytes of the rows agree.
-/

namespace Bitmap

/-- The bytes of a row that holds `n` bytes of pixels, with its padding. -/
def stride (n : ℕ) : ℕ := (n + 3) / 4 * 4

/-- The pixel at column `x` and row `y` from the top, in a bitmap of `h` rows of `rowBytes`
bytes. -/
def pixel (data : ℕ → BitVec 8) (rowBytes h x y : ℕ) : BitVec 8 :=
  (data ((h - 1 - y) * rowBytes + x / 8) >>> (7 - x % 8)) &&& 1

/-- A bit of a byte. -/
theorem shiftRight_and_one (b : BitVec 8) (k : ℕ) :
    (b >>> k) &&& 1 = (BitVec.ofBool (b.getLsbD k)).setWidth 8 := by
  have hand := BitVec.and_one_eq_setWidth_ofBool_getLsbD (x := b >>> k)
  rwa [BitVec.getLsbD_ushiftRight, Nat.add_zero] at hand

/-- A byte is its eight bits. -/
theorem byte_ext {b c : BitVec 8}
    (h : ∀ k : ℕ, k < 8 → (b >>> k) &&& (1 : BitVec 8) = (c >>> k) &&& 1) : b = c := by
  apply BitVec.eq_of_getLsbD_eq
  intro k hk
  have hbit := h k hk
  rw [shiftRight_and_one, shiftRight_and_one] at hbit
  revert hbit
  cases b.getLsbD k <;> cases c.getLsbD k <;> decide

section Pixel

variable {data data' : ℕ → BitVec 8} {rowBytes rowBytes' h n x y : ℕ}

/-- A pixel depends on the bytes of the bitmap. -/
theorem pixel_congr (hn : n ≤ rowBytes) (hy : y < h) (hx : x < 8 * n)
    (heq : ∀ i < rowBytes * h, data i = data' i) :
    pixel data rowBytes h x y = pixel data' rowBytes h x y := by
  have hrow : (h - 1 - y) * rowBytes + rowBytes ≤ rowBytes * h := by
    rw [← Nat.succ_mul, Nat.mul_comm rowBytes]
    exact Nat.mul_le_mul_right _ (by omega)
  rw [pixel, pixel, heq _ (by omega)]

/-- Two row lengths give the same pixels exactly when they lead to the same bytes. -/
theorem pixels_eq_iff (data : ℕ → BitVec 8) :
    (∀ y < h, ∀ x < 8 * n, pixel data rowBytes h x y = pixel data rowBytes' h x y) ↔
      ∀ j < h, ∀ i < n, data (j * rowBytes + i) = data (j * rowBytes' + i) := by
  constructor
  · intro hpixels j hj i hi
    refine byte_ext fun k hk => ?_
    have hbit := hpixels (h - 1 - j) (by omega) (8 * i + (7 - k)) (by omega)
    have hrow : h - 1 - (h - 1 - j) = j := by omega
    have hcol : (8 * i + (7 - k)) / 8 = i := by omega
    have hshift : 7 - (8 * i + (7 - k)) % 8 = k := by omega
    rwa [pixel, pixel, hrow, hcol, hshift] at hbit
  · intro hbytes y hy x hx
    rw [pixel, pixel, hbytes _ (by omega) _ (by omega)]

end Pixel

end Bitmap
