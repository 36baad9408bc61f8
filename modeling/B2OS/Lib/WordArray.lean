import B2OS.Lib.ByteMemory

/-!
# Arrays of Words

An array of 32-bit words in byte memory is given by the address of its first word.

## Main results

* `WordArray.load_store`: a store into an array changes one word of it.
* `WordArray.load_changedOnly`: words outside the changed addresses stay.
-/

namespace ByteMemory

/-- An array of `size` words below the end of the address space. -/
structure WordArray where
  base : Addr
  size : ℕ
  fits : base.toNat + 4 * size ≤ 2 ^ 32

namespace WordArray

/-- The address of word `k`. -/
def addr (A : WordArray) (k : ℕ) : Addr := A.base + BitVec.ofNat 32 (4 * k)

variable {A B : WordArray} {m m' : Memory} {k j : ℕ}

theorem addr_toNat (hk : k < A.size) : (A.addr k).toNat = A.base.toNat + 4 * k := by
  have hfits := A.fits
  rw [addr, BitVec.toNat_add, BitVec.toNat_ofNat]
  omega

theorem changedOnly_store (m : Memory) (v : BitVec 32) (hk : k < A.size) :
    ChangedOnly m (store32 m (A.addr k) v) (A.base.toNat + 4 * k)
      (A.base.toNat + 4 * k + 4) := by
  have hfits := A.fits
  have haddr := addr_toNat hk
  have h := ChangedOnly.store32 m (a := A.addr k) (by omega) v
  rwa [haddr] at h

/-- Words outside the changed addresses stay. -/
theorem load_changedOnly {lo hi : ℕ} (hch : ChangedOnly m m' lo hi) (hj : j < A.size)
    (hout : A.base.toNat + 4 * j + 4 ≤ lo ∨ hi ≤ A.base.toNat + 4 * j) :
    load32 m' (A.addr j) = load32 m (A.addr j) := by
  have hfits := A.fits
  have haddr := addr_toNat hj
  exact hch.load32_eq (by omega) (by omega)

/-- A store into an array changes one word of it. -/
theorem load_store (m : Memory) (v : BitVec 32) (hk : k < A.size) (hj : j < A.size) :
    load32 (store32 m (A.addr k) v) (A.addr j) = if j = k then v else load32 m (A.addr j) := by
  split_ifs with heq
  · rw [heq, load32_store32]
  · exact load_changedOnly (changedOnly_store m v hk) hj (by omega)

/-- The arrays lie apart. -/
def Apart (A B : WordArray) : Prop :=
  A.base.toNat + 4 * A.size ≤ B.base.toNat ∨ B.base.toNat + 4 * B.size ≤ A.base.toNat

/-- A store into one array leaves the words of another one. -/
theorem load_store_of_apart (hAB : A.Apart B) (m : Memory) (v : BitVec 32) (hk : k < A.size)
    (hj : j < B.size) : load32 (store32 m (A.addr k) v) (B.addr j) = load32 m (B.addr j) := by
  refine load_changedOnly (changedOnly_store m v hk) hj ?_
  rw [Apart] at hAB
  omega

end WordArray

end ByteMemory
