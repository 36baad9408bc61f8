import B2OS.Kernel.MallocClient
import B2OS.Lib.Bitmap
import B2OS.Lib.Run

/-!
# The Bitmap of the Font

This module embeds `af_read_bmp_memory` of `Apple2/AppleFont.c`, which `af_Create` calls for the
two built-in fonts. It reads the width and the height of a BMP file in memory, copies the rows to
a block of the heap, and unpacks them into another one, a byte for each pixel.

## Main results

* `memcpyLoggedFrom_eq`: what the copy of the rows leaves, and what it reads.
* `decode_spec`: the three loops unpack a bitmap, and store into the image only.
-/

namespace B2OS.Apple2

open ByteMemory BlockChain Kernel

/-! ### The function -/

/-- `memcpy` of `n` bytes into a local array, which is not in memory: its content, and the
addresses that were read. -/
def readBytes (m : Memory) (src : Addr) (n : ℕ) : List (BitVec 8) × List Addr :=
  let addrs := (List.range n).map fun i => src + BitVec.ofNat 32 i
  (addrs.map m, addrs)

/-- The loop of `memcpy` as in `memcpyFrom`, with the addresses that it reads. -/
def memcpyLoggedFrom (dst src : Addr) : ℕ → ℕ → Memory × List Addr → Memory × List Addr
  | 0, _, s => s
  | n + 1, i, (m, reads) =>
      memcpyLoggedFrom dst src n (i + 1)
        (store8 m (dst + BitVec.ofNat 32 i) (m (src + BitVec.ofNat 32 i)),
          reads ++ [src + BitVec.ofNat 32 i])

/-- `(int)head[i]` and the three bytes behind it, shifted into their places. -/
def headInt (head : List (BitVec 8)) (i : ℕ) : BitVec 32 :=
  (head.getD i 0).setWidth 32 + ((head.getD (i + 1) 0).setWidth 32 <<< 8) +
    ((head.getD (i + 2) 0).setWidth 32 <<< 16) + ((head.getD (i + 3) 0).setWidth 32 <<< 24)

/-- The loop over the bits of the byte `data[fpos]`. -/
def decodeByte (img data : Addr) (fpos pos : BitVec 32) (m : Memory) : Memory :=
  forUpTo (fun k m =>
    store8 m (img + (pos + (7 - BitVec.ofNat 32 k))) ((m (data + fpos) >>> k) &&& 1)) 8 m

/-- The loop over the bytes of a row. -/
def decodeRow (img data : Addr) (w lineSize j rev_j : BitVec 32) (m : Memory) : Memory :=
  forUpTo (fun i m =>
    let fpos := j * lineSize + BitVec.ofNat 32 i
    let pos := rev_j * w + BitVec.ofNat 32 i * 8
    decodeByte img data fpos pos m) (w.sdiv 8).toInt.toNat m

/-- The loop over the rows; `rev_j` goes down from the last one. -/
def decode (img data : Addr) (w h lineSize : BitVec 32) (m : Memory) : Memory :=
  forUpTo (fun j m =>
    decodeRow img data w lineSize (BitVec.ofNat 32 j) (h - 1 - BitVec.ofNat 32 j) m)
    h.toInt.toNat m

/-- The function uses a pointer that `malloc` left null: the copy stores through `data`, and a
turn of the inner loop goes through both. -/
def UsesNull (img data : Addr) (w h fileSize : BitVec 32) : Prop :=
  (fileSize ≠ 0 ∧ data = 0) ∨ (0 < h.toInt ∧ 0 < (w.sdiv 8).toInt ∧ (img = 0 ∨ data = 0))

instance (img data : Addr) (w h fileSize : BitVec 32) : Decidable (UsesNull img data w h fileSize) :=
  inferInstanceAs (Decidable (_ ∨ _))

/-- What the function hands back: the image, the two numbers at `_w` and `_h`, the heap, and the
addresses that it has read through `buffer`. -/
structure Image where
  img : Addr
  w : BitVec 32
  h : BitVec 32
  heap : KernelHeap
  reads : List Addr

/-- `af_read_bmp_memory`. It does not ask whether `malloc` granted its requests, and `none` stands
for the runs that go on through a null pointer, which have no meaning in C. -/
def afReadBmpMemory (fuel : ℕ) (buffer : Addr) (k : KernelHeap) : Option Image := do
  let (head, reads) := readBytes k.mem buffer 54
  let w := headInt head 18
  let h := headInt head 22
  let lineSize := w.sdiv 8 + (w.sdiv 8).srem 4
  let fileSize := lineSize * h
  let (img, k) ← malloc fuel (w * h) k
  let (data, k) ← malloc fuel fileSize k
  let pos : BitVec 32 := 54
  let pos := pos + 8
  if UsesNull img data w h fileSize then none
  else
    let (m, reads) := memcpyLoggedFrom data (buffer + pos) fileSize.toNat 0 (k.mem, reads)
    let m := decode img data w h lineSize m
    some ⟨img, w, h, free data { k with mem := m }, reads⟩

/-! ### The loops -/

/-- The copy with its ledger is the copy, and reads the bytes of the source. -/
theorem memcpyLoggedFrom_eq (dst src : Addr) (n : ℕ) :
    ∀ (i : ℕ) (m : Memory) (reads : List Addr),
      memcpyLoggedFrom dst src n i (m, reads) = (memcpyFrom dst src n i m,
        reads ++ (List.range n).map fun t => src + BitVec.ofNat 32 (i + t)) := by
  induction n with
  | zero =>
      intro i m reads
      rw [List.range_zero, List.map_nil, List.append_nil]
      rfl
  | succ n ih =>
      intro i m reads
      rw [memcpyLoggedFrom, ih, memcpyFrom, List.range_succ_eq_map, List.map_cons, List.map_map,
        List.append_assoc, List.singleton_append, Nat.add_zero]
      congr 3
      refine List.map_congr_left fun t _ => ?_
      simp only [Function.comp, Nat.succ_eq_add_one, Nat.add_comm t 1, Nat.add_assoc]

/-- A store into one of `N` cells. -/
theorem store8_cell {img : Addr} {N p c : ℕ} (hroom : img.toNat + N ≤ 2 ^ 32) (hp : p < N)
    (hc : c < N) (m : Memory) (v : BitVec 8) :
    store8 m (img + BitVec.ofNat 32 p) v (img + BitVec.ofNat 32 c) =
      if c = p then v else m (img + BitVec.ofNat 32 c) := by
  have hpnat := toNat_add_lt hroom hp
  have hcnat := toNat_add_lt hroom hc
  split_ifs with heq
  · rw [heq, store8_self]
  · refine store8_of_ne fun haddr => heq ?_
    have hnat := congrArg BitVec.toNat haddr
    omega

/-- A row ends within its rows. -/
theorem row_end {y H : ℕ} (hy : y < H) (a : ℕ) : y * a + a ≤ a * H := by
  rw [← Nat.succ_mul, Nat.mul_comm a]
  exact Nat.mul_le_mul_right a hy

/-- The number of bytes of a row, from its number of pixels. -/
theorem sdiv_eight {n : ℕ} (hn : 8 * n < 2 ^ 31) :
    (BitVec.ofNat 32 (8 * n)).sdiv 8 = BitVec.ofNat 32 n := by
  have hnat : (BitVec.ofNat 32 (8 * n)).toNat = 8 * n := by
    rw [BitVec.toNat_ofNat]
    omega
  have hmsb : (BitVec.ofNat 32 (8 * n)).msb = false := by
    rw [BitVec.msb_eq_false_iff_two_mul_lt, hnat]
    omega
  have height : (8 : BitVec 32).msb = false := rfl
  have height' : (8 : BitVec 32).toNat = 8 := rfl
  rw [BitVec.sdiv_eq, hmsb, height]
  apply BitVec.eq_of_toNat_eq
  rw [BitVec.udiv_eq, BitVec.toNat_udiv, hnat, height', BitVec.toNat_ofNat]
  omega

/-- A count that is not negative. -/
theorem toInt_count {n : ℕ} (hn : n < 2 ^ 31) : (BitVec.ofNat 32 n).toInt = n := by
  have hnat : (BitVec.ofNat 32 n).toNat = n := by
    rw [BitVec.toNat_ofNat]
    omega
  rw [BitVec.toInt_eq_toNat_of_lt (by omega), hnat]

/-- Where the loops unpack: `n` bytes a row into `8 * n` pixels, from a row to the next one `L`
bytes further on, `H` rows. The image has room in the address space, and the data lies outside. -/
structure Unpacks (img data : Addr) (n L H : ℕ) : Prop where
  room : img.toNat + 8 * n * H ≤ 2 ^ 32
  row : n ≤ L
  apart : ∀ t < L * H, (data + BitVec.ofNat 32 t).toNat < img.toNat ∨
    img.toNat + 8 * n * H ≤ (data + BitVec.ofNat 32 t).toNat

/-- No byte outside the image has changed. -/
abbrev OnlyImage (img : Addr) (n H : ℕ) (m m' : Memory) : Prop :=
  ChangedOnly m m' img.toNat (img.toNat + 8 * n * H)

section Unpacks

variable {img data : Addr} {n L H : ℕ} (hu : Unpacks img data n L H)
include hu

/-- A byte of the data, after stores into the image. -/
theorem Unpacks.data_eq {m m' : Memory} {t : ℕ} (ht : t < L * H) (hch : OnlyImage img n H m m') :
    m' (data + BitVec.ofNat 32 t) = m (data + BitVec.ofNat 32 t) := hch _ (hu.apart t ht)

/-- The byte `t` of the data becomes the eight pixels from cell `p` on. -/
theorem decodeByte_spec {t p : ℕ} (ht : t < L * H) (hp : p + 8 ≤ 8 * n * H) (m : Memory) :
    OnlyImage img n H m (decodeByte img data (BitVec.ofNat 32 t) (BitVec.ofNat 32 p) m) ∧
      ∀ c < 8 * n * H, decodeByte img data (BitVec.ofNat 32 t) (BitVec.ofNat 32 p) m
          (img + BitVec.ofNat 32 c) =
        if p ≤ c ∧ c < p + 8 then (m (data + BitVec.ofNat 32 t) >>> (p + 7 - c)) &&& 1
        else m (img + BitVec.ofNat 32 c) := by
  have hroom := hu.room
  have hcell : ∀ k < 8, BitVec.ofNat 32 p + (7 - BitVec.ofNat 32 k) = BitVec.ofNat 32 (p + (7 - k)) := by
    intro k hk
    have hseven : (7 : BitVec 32).toNat = 7 := rfl
    apply BitVec.eq_of_toNat_eq
    rw [BitVec.toNat_add, BitVec.toNat_sub, BitVec.toNat_ofNat, BitVec.toNat_ofNat,
      BitVec.toNat_ofNat, hseven]
    omega
  have hstep : ∀ k < 8, ∀ m', OnlyImage img n H m m' → ∀ v, OnlyImage img n H m
      (store8 m' (img + (BitVec.ofNat 32 p + (7 - BitVec.ofNat 32 k))) v) := by
    intro k hk m' hch v
    rw [hcell k hk]
    have hnat := toNat_add_lt (k := p + (7 - k)) hroom (by omega)
    exact hch.trans ((ChangedOnly.store8 m' _ v).mono (by omega) (by omega))
  refine ⟨forUpTo_inv (fun _ m' => OnlyImage img n H m m') (.refl _ _ _)
    fun k hk m' hch => hstep k hk m' hch _, fun c hc => ?_⟩
  have hloop := forUpTo_cell (fun _ m' => OnlyImage img n H m m')
    (fun m' => m' (img + BitVec.ofNat 32 c)) (j := p + 7 - c) (P := p ≤ c ∧ c < p + 8)
    (v := (m (data + BitVec.ofNat 32 t) >>> (p + 7 - c)) &&& 1) (n := 8) (a := m)
    (f := fun k m' => store8 m' (img + (BitVec.ofNat 32 p + (7 - BitVec.ofNat 32 k)))
      ((m' (data + BitVec.ofNat 32 t) >>> k) &&& 1))
    (.refl _ _ _) (fun k hk m' hch => hstep k hk m' hch _) ?_
  · rw [decodeByte, hloop]
    refine if_congr ?_ rfl rfl
    omega
  · intro k hk m' hch
    rw [hcell k hk, store8_cell hroom (by omega) hc, hu.data_eq ht hch]
    have hiff : c = p + (7 - k) ↔ k = p + 7 - c ∧ p ≤ c ∧ c < p + 8 := by omega
    rw [if_congr hiff rfl rfl]
    split_ifs with hbit
    · rw [hbit.1]
    · rfl

/-- Row `j` of the data becomes row `y` of the image. -/
theorem decodeRow_spec {j y : ℕ} (hn : 8 * n < 2 ^ 31) (hj : j < H) (hy : y < H) (m : Memory) :
    OnlyImage img n H m (decodeRow img data (BitVec.ofNat 32 (8 * n)) (BitVec.ofNat 32 L)
        (BitVec.ofNat 32 j) (BitVec.ofNat 32 y) m) ∧
      ∀ y' < H, ∀ x < 8 * n, decodeRow img data (BitVec.ofNat 32 (8 * n)) (BitVec.ofNat 32 L)
          (BitVec.ofNat 32 j) (BitVec.ofNat 32 y) m (img + BitVec.ofNat 32 (y' * (8 * n) + x)) =
        if y' = y then (m (data + BitVec.ofNat 32 (j * L + x / 8)) >>> (7 - x % 8)) &&& 1
        else m (img + BitVec.ofNat 32 (y' * (8 * n) + x)) := by
  have hrow := hu.row
  have hyend := row_end hy (8 * n)
  have hjend := row_end hj L
  have hturns : ((BitVec.ofNat 32 (8 * n)).sdiv 8).toInt.toNat = n := by
    rw [sdiv_eight hn, toInt_count (by omega), Int.toNat_natCast]
  have hturn : ∀ i (m' : Memory), decodeByte img data
      (BitVec.ofNat 32 j * BitVec.ofNat 32 L + BitVec.ofNat 32 i)
      (BitVec.ofNat 32 y * BitVec.ofNat 32 (8 * n) + BitVec.ofNat 32 i * 8) m' =
      decodeByte img data (BitVec.ofNat 32 (j * L + i)) (BitVec.ofNat 32 (y * (8 * n) + i * 8))
        m' := by
    intro i m'
    have height : BitVec.ofNat 32 8 = 8 := rfl
    simp only [BitVec.ofNat_add, BitVec.ofNat_mul, height]
  have hstep : ∀ i < n, ∀ m', OnlyImage img n H m m' → OnlyImage img n H m
      (decodeByte img data (BitVec.ofNat 32 (j * L + i)) (BitVec.ofNat 32 (y * (8 * n) + i * 8))
        m') :=
    fun i hi m' hch => hch.trans (decodeByte_spec hu (by omega) (by omega) m').1
  simp only [decodeRow, hturns, hturn]
  refine ⟨forUpTo_inv (fun _ m' => OnlyImage img n H m m') (.refl _ _ _) hstep, fun y' hy' x hx => ?_⟩
  have hyend' := row_end hy' (8 * n)
  rw [forUpTo_cell (fun _ m' => OnlyImage img n H m m')
    (fun m' => m' (img + BitVec.ofNat 32 (y' * (8 * n) + x))) (j := x / 8) (P := y' = y)
    (v := (m (data + BitVec.ofNat 32 (j * L + x / 8)) >>> (7 - x % 8)) &&& 1) (.refl _ _ _) hstep]
  · refine if_congr ?_ rfl rfl
    omega
  · intro i hi m' hch
    rw [(decodeByte_spec hu (by omega) (by omega) m').2 _ (by omega), hu.data_eq (by omega) hch]
    -- rows do not overlap
    have hiff : y * (8 * n) + i * 8 ≤ y' * (8 * n) + x ∧
        y' * (8 * n) + x < y * (8 * n) + i * 8 + 8 ↔ i = x / 8 ∧ y' = y := by
      rcases lt_trichotomy y' y with hlt | rfl | hlt
      · have hle := row_end hlt (8 * n)
        rw [Nat.mul_comm (8 * n) y] at hle
        omega
      · omega
      · have hle := row_end hlt (8 * n)
        rw [Nat.mul_comm (8 * n) y'] at hle
        omega
    rw [if_congr hiff rfl rfl]
    split_ifs with hbyte
    · obtain ⟨rfl, rfl⟩ := hbyte
      have hbit : y' * (8 * n) + x / 8 * 8 + 7 - (y' * (8 * n) + x) = 7 - x % 8 := by omega
      rw [hbit]
    · rfl

/-- The loops unpack the bitmap. -/
theorem decode_spec (hn : 8 * n < 2 ^ 31) (hH : H < 2 ^ 31) (m : Memory) :
    OnlyImage img n H m (decode img data (BitVec.ofNat 32 (8 * n)) (BitVec.ofNat 32 H)
        (BitVec.ofNat 32 L) m) ∧
      ∀ y < H, ∀ x < 8 * n, decode img data (BitVec.ofNat 32 (8 * n)) (BitVec.ofNat 32 H)
          (BitVec.ofNat 32 L) m (img + BitVec.ofNat 32 (y * (8 * n) + x)) =
        Bitmap.pixel (fun t => m (data + BitVec.ofNat 32 t)) L H x y := by
  have hrow := hu.row
  have hturns : (BitVec.ofNat 32 H).toInt.toNat = H := by
    rw [toInt_count hH, Int.toNat_natCast]
  have hrev : ∀ j < H, BitVec.ofNat 32 H - 1 - BitVec.ofNat 32 j = BitVec.ofNat 32 (H - 1 - j) := by
    intro j hj
    have hone : (1 : BitVec 32).toNat = 1 := rfl
    apply BitVec.eq_of_toNat_eq
    rw [BitVec.toNat_sub, BitVec.toNat_sub, BitVec.toNat_ofNat, BitVec.toNat_ofNat,
      BitVec.toNat_ofNat, hone]
    omega
  have hturn := fun j (hj : j < H) m' =>
    decodeRow_spec hu hn hj (y := H - 1 - j) (by omega) m'
  have hstep : ∀ j < H, ∀ m', OnlyImage img n H m m' → OnlyImage img n H m
      (decodeRow img data (BitVec.ofNat 32 (8 * n)) (BitVec.ofNat 32 L) (BitVec.ofNat 32 j)
        (BitVec.ofNat 32 H - 1 - BitVec.ofNat 32 j) m') := by
    intro j hj m' hch
    rw [hrev j hj]
    exact hch.trans (hturn j hj m').1
  simp only [decode, hturns]
  refine ⟨forUpTo_inv (fun _ m' => OnlyImage img n H m m') (.refl _ _ _) hstep, fun y hy x hx => ?_⟩
  rw [forUpTo_cell (fun _ m' => OnlyImage img n H m m')
    (fun m' => m' (img + BitVec.ofNat 32 (y * (8 * n) + x))) (j := H - 1 - y) (P := True)
    (v := Bitmap.pixel (fun t => m (data + BitVec.ofNat 32 t)) L H x y) (.refl _ _ _) hstep]
  · rw [if_pos ⟨by omega, trivial⟩]
  · intro j hj m' hch
    have hjend := row_end hj L
    rw [hrev j hj, (hturn j hj m').2 y hy x hx, hu.data_eq (by omega) hch]
    have hiff : y = H - 1 - j ↔ j = H - 1 - y ∧ True := by
      rw [and_true]
      omega
    rw [if_congr hiff rfl rfl]
    split_ifs with hthis
    · rw [hthis.1, Bitmap.pixel]
    · rfl

end Unpacks

end B2OS.Apple2
