import B2OS.Apple2.FontBitmap

/-!
# What the Font Reader Makes of a BMP File

`af_read_bmp_memory` of `Apple2/AppleFont.c` is made for files with one bit a pixel, whose rows
are padded to whole words. It takes the row length to be `w/8 + (w/8)%4`. For `w/8` bytes of
pixels that are one more than a multiple of four this is two bytes short of the padded row, for
three more it is two bytes too long, and the rows are read from the wrong places.

## Main results

* `IsBmp.run_iff`: when the function comes back, and with what.
* `unpack_spec`: the image holds the pixels of rows of the length that the function takes.
* `lineSize_eq_stride`: when that is the length of the rows.
* `decodes_iff`: a file is decoded exactly when there is room for the two blocks, the file goes on
  to the end of the rows as the function takes them, and they have the bytes of the rows.
-/

namespace B2OS.Apple2

open ByteMemory BlockChain Kernel

/-! ### Files -/

/-- Byte `i` of the file at `buffer`. -/
def fileByte (m : Memory) (buffer : Addr) (i : ℕ) : BitVec 8 := m (buffer + BitVec.ofNat 32 i)

/-- The address of a byte of the rows. -/
theorem rowByte_addr (buffer : Addr) (i : ℕ) :
    buffer + 62 + BitVec.ofNat 32 i = buffer + BitVec.ofNat 32 (62 + i) := by
  rw [BitVec.ofNat_add, add_assoc]
  rfl

/-- A BMP file of `len` bytes at `buffer`, with `w` by `h` pixels of one bit, in rows from the
bottom up that start at offset 62. -/
structure IsBmp (m : Memory) (buffer : Addr) (len w h : ℕ) : Prop where
  room : buffer.toNat + len ≤ 2 ^ 32
  offset : load32 m (buffer + 10) = 62
  width : load32 m (buffer + 18) = BitVec.ofNat 32 w
  height : load32 m (buffer + 22) = BitVec.ofNat 32 h
  bitCount : m (buffer + 28) = 1 ∧ m (buffer + 29) = 0
  wide : 0 < w ∧ w < 2 ^ 31
  bytes : 8 ∣ w
  tall : 0 < h ∧ h < 2 ^ 31
  size : 62 + Bitmap.stride (w / 8) * h ≤ len

/-- The bytes of the file are in use: outside the heap, or in a live block. -/
def FileInUse (k : KernelHeap) (buffer : Addr) (len : ℕ) : Prop :=
  ∀ i < len, InUse k (buffer + BitVec.ofNat 32 i)

/-- The file is decoded: the width and the height of its header, a block with a byte for each
pixel, and only bytes of the file are read. -/
structure Decoded (k : KernelHeap) (buffer : Addr) (len w h : ℕ) (r : Image) : Prop where
  width : r.w.toNat = w
  height : r.h.toNat = h
  live : LiveBlock r.heap r.img
  room : w * h ≤ usable r.heap r.img
  pixels : ∀ y < h, ∀ x < w, r.heap.mem (r.img + BitVec.ofNat 32 (y * w + x)) =
    Bitmap.pixel (fun i => fileByte k.mem buffer (62 + i)) (Bitmap.stride (w / 8)) h x y
  reads : ∀ a ∈ r.reads, ∃ i < len, a = buffer + BitVec.ofNat 32 i

/-- The function comes back, and when it does it has decoded the file. -/
def Decodes (k : KernelHeap) (buffer : Addr) (len w h : ℕ) : Prop :=
  (∃ fuel r, afReadBmpMemory fuel buffer k = some r) ∧
    ∀ fuel r, afReadBmpMemory fuel buffer k = some r → Decoded k buffer len w h r

/-! ### The row length -/

/-- The row length that the function takes, for `n` bytes of pixels. -/
def lineSize (n : ℕ) : ℕ := n + n % 4

/-- It is that of the file for every other number of bytes. -/
theorem lineSize_eq_stride {n : ℕ} : lineSize n = Bitmap.stride n ↔ n % 2 = 0 := by
  rw [lineSize, Bitmap.stride]
  omega

/-- The rows as the function takes them lie in the file, and have the bytes of its rows. -/
def ReadsRows (m : Memory) (buffer : Addr) (len w h : ℕ) : Prop :=
  62 + lineSize (w / 8) * h ≤ len ∧ ∀ j < h, ∀ i < w / 8,
    fileByte m buffer (62 + (j * lineSize (w / 8) + i)) =
      fileByte m buffer (62 + (j * Bitmap.stride (w / 8) + i))

/-- With an even number of bytes in a row, the rows are read from their places. -/
theorem IsBmp.readsRows_of_even {m : Memory} {buffer : Addr} {len w h : ℕ}
    (hb : IsBmp m buffer len w h) (heven : w / 8 % 2 = 0) : ReadsRows m buffer len w h := by
  rw [ReadsRows, lineSize_eq_stride.mpr heven]
  exact ⟨hb.size, fun j _ i _ => rfl⟩

/-! ### The header -/

section Header

variable {m : Memory} {buffer : Addr} {k : KernelHeap} {len w h : ℕ}

theorem readBytes_getD {n i : ℕ} (hi : i < n) :
    (readBytes m buffer n).1.getD i 0 = m (buffer + BitVec.ofNat 32 i) := by
  simp [readBytes, List.getD, hi]

/-- A number of the header is the word there. -/
theorem headInt_eq {n i : ℕ} (hi : i + 4 ≤ n) :
    headInt (readBytes m buffer n).1 i = load32 m (buffer + BitVec.ofNat 32 i) := by
  have hnext : ∀ j, buffer + BitVec.ofNat 32 (i + j) =
      buffer + BitVec.ofNat 32 i + BitVec.ofNat 32 j := by
    intro j
    rw [BitVec.ofNat_add, add_assoc]
  have hone : BitVec.ofNat 32 1 = 1 := rfl
  have htwo : BitVec.ofNat 32 2 = 2 := rfl
  have hthree : BitVec.ofNat 32 3 = 3 := rfl
  rw [headInt, load32, readBytes_getD (by omega), readBytes_getD (by omega),
    readBytes_getD (by omega), readBytes_getD (by omega), hnext 1, hnext 2, hnext 3, hone, htwo,
    hthree]
  apply BitVec.eq_of_toNat_eq
  have h0 := (m (buffer + BitVec.ofNat 32 i)).isLt
  have h1 := (m (buffer + BitVec.ofNat 32 i + 1)).isLt
  have h2 := (m (buffer + BitVec.ofNat 32 i + 2)).isLt
  have h3 := (m (buffer + BitVec.ofNat 32 i + 3)).isLt
  simp only [BitVec.toNat_add, BitVec.toNat_shiftLeft, BitVec.toNat_setWidth, BitVec.toNat_ofNat,
    Nat.shiftLeft_eq]
  omega

/-- The row length, as the function works it out. -/
theorem lineSize_spec {n : ℕ} (hn : 8 * n < 2 ^ 31) :
    (BitVec.ofNat 32 (8 * n)).sdiv 8 + ((BitVec.ofNat 32 (8 * n)).sdiv 8).srem 4 =
      BitVec.ofNat 32 (lineSize n) := by
  have hnat : (BitVec.ofNat 32 n).toNat = n := by
    rw [BitVec.toNat_ofNat]
    omega
  have hmsb : (BitVec.ofNat 32 n).msb = false := by
    rw [BitVec.msb_eq_false_iff_two_mul_lt, hnat]
    omega
  have hfour : (4 : BitVec 32).msb = false := rfl
  have hfour' : (4 : BitVec 32).toNat = 4 := rfl
  have hrem : (BitVec.ofNat 32 n).srem 4 = BitVec.ofNat 32 (n % 4) := by
    rw [BitVec.srem_eq, hmsb, hfour]
    apply BitVec.eq_of_toNat_eq
    rw [BitVec.toNat_umod, hnat, hfour', BitVec.toNat_ofNat]
    omega
  rw [sdiv_eight hn, hrem, lineSize, BitVec.ofNat_add]

/-- A turn of the loops uses both pointers. -/
theorem usesNull_iff {img data fileSize : BitVec 32} {n : ℕ} (hn : 0 < n) (hn' : 8 * n < 2 ^ 31)
    (hh : 0 < h) (hh' : h < 2 ^ 31) :
    UsesNull img data (BitVec.ofNat 32 (8 * n)) (BitVec.ofNat 32 h) fileSize ↔
      img = 0 ∨ data = 0 := by
  rw [UsesNull, sdiv_eight hn', toInt_count hh', toInt_count (by omega)]
  constructor
  · rintro (⟨-, hdata⟩ | ⟨-, -, hnull⟩)
    · exact .inr hdata
    · exact hnull
  · exact fun hnull => .inr ⟨by omega, by omega, hnull⟩

/-- What the function hands back when both requests are granted. -/
def unpack (buffer img data : Addr) (w h : ℕ) (k : KernelHeap) : Image :=
  let fileSize := BitVec.ofNat 32 (lineSize (w / 8) * h)
  let m := memcpy k.mem data (buffer + 62) fileSize
  let m := decode img data (BitVec.ofNat 32 w) (BitVec.ofNat 32 h)
    (BitVec.ofNat 32 (lineSize (w / 8))) m
  ⟨img, BitVec.ofNat 32 w, BitVec.ofNat 32 h, free data { k with mem := m },
    ((List.range 54).map fun i => buffer + BitVec.ofNat 32 i) ++
      (List.range fileSize.toNat).map fun i => buffer + 62 + BitVec.ofNat 32 i⟩

/-- When the function comes back on a file, and with what. -/
theorem IsBmp.run_iff (hb : IsBmp k.mem buffer len w h) {fuel : ℕ} {r : Image} :
    afReadBmpMemory fuel buffer k = some r ↔
      ∃ img k₁ data k₂, malloc fuel (BitVec.ofNat 32 (w * h)) k = some (img, k₁) ∧
        malloc fuel (BitVec.ofNat 32 (lineSize (w / 8) * h)) k₁ = some (data, k₂) ∧
        (img ≠ 0 ∧ data ≠ 0) ∧ unpack buffer img data w h k₂ = r := by
  obtain ⟨n, rfl⟩ := hb.bytes
  obtain ⟨hpos, hlt⟩ := hb.wide
  obtain ⟨hhpos, hhlt⟩ := hb.tall
  have hn : 8 * n / 8 = n := by omega
  have hw : headInt (readBytes k.mem buffer 54).1 18 = BitVec.ofNat 32 (8 * n) :=
    (headInt_eq (by omega)).trans hb.width
  have hh : headInt (readBytes k.mem buffer 54).1 22 = BitVec.ofNat 32 h :=
    (headInt_eq (by omega)).trans hb.height
  have hoffset : (54 : BitVec 32) + 8 = 62 := rfl
  simp only [afReadBmpMemory, hw, hh, lineSize_spec hlt, ← BitVec.ofNat_mul, hoffset,
    Option.bind_eq_bind, Option.bind_eq_some_iff, Prod.exists, hn, memcpyLoggedFrom_eq,
    usesNull_iff (by omega) hlt hhpos hhlt, ← not_or]
  constructor
  · rintro ⟨img, k₁, h₁, data, k₂, h₂, hr⟩
    split_ifs at hr with hnull
    refine ⟨img, k₁, data, k₂, h₁, h₂, hnull, ?_⟩
    rw [← Option.some.inj hr, unpack, hn]
    simp only [Nat.zero_add]
    rfl
  · rintro ⟨img, k₁, data, k₂, h₁, h₂, hnull, rfl⟩
    refine ⟨img, k₁, h₁, data, k₂, h₂, ?_⟩
    rw [if_neg hnull, unpack, hn]
    simp only [Nat.zero_add]
    rfl

end Header

/-! ### The image -/

section Unpack

variable {k k₁ k₂ : KernelHeap} {bs : List (Block ℕ)} {buffer img data : Addr}
variable {len w h fuel : ℕ}

/-- Bytes that all lie outside a block lie on one side of it. -/
theorem apart_of_bytes {src dst : Addr} {N M : ℕ} (hsrc : src.toNat + N ≤ 2 ^ 32) (hN : 0 < N)
    (hNM : N ≤ M) (hout : ∀ i < N, (src + BitVec.ofNat 32 i).toNat < dst.toNat ∨
      dst.toNat + M ≤ (src + BitVec.ofNat 32 i).toNat) :
    src.toNat + N ≤ dst.toNat ∨ dst.toNat + N ≤ src.toNat := by
  by_contra hover
  -- the first byte of the two ranges that is in both
  have hin : dst.toNat - src.toNat < N := by omega
  have hbyte := hout _ hin
  rw [toNat_add_lt hsrc hin] at hbyte
  omega

/-- The sizes of the two requests, without overflow. -/
theorem IsBmp.sizes (hb : IsBmp k.mem buffer len w h) (hfit : w * h < 2 ^ 32) :
    0 < lineSize (w / 8) * h ∧ lineSize (w / 8) * h ≤ w * h ∧
      (BitVec.ofNat 32 (w * h)).toNat = w * h ∧
      (BitVec.ofNat 32 (lineSize (w / 8) * h)).toNat = lineSize (w / 8) * h ∧
      w * h ≤ maxRequest ∧ w * h % 4 = 0 := by
  obtain ⟨n, rfl⟩ := hb.bytes
  obtain ⟨hpos, -⟩ := hb.wide
  obtain ⟨hhpos, -⟩ := hb.tall
  have hline : 0 < lineSize (8 * n / 8) ∧ lineSize (8 * n / 8) ≤ 8 * n := by
    rw [lineSize]
    omega
  have hle := Nat.mul_le_mul_right h hline.2
  have hmul : 8 * n * h = 4 * (2 * (n * h)) := by
    rw [← Nat.mul_assoc, ← Nat.mul_assoc]
  have hmod : 8 * n * h % 4 = 0 := by
    rw [hmul, Nat.mul_mod_right]
  rw [BitVec.toNat_ofNat, BitVec.toNat_ofNat, maxRequest]
  exact ⟨Nat.mul_pos hline.1 hhpos, hle, Nat.mod_eq_of_lt hfit,
    Nat.mod_eq_of_lt (hle.trans_lt hfit), by omega, hmod⟩

/-- The copy takes the rows of the file, as long as the function takes them to be. -/
theorem copy_spec {m : Memory} {N M : ℕ} {size : BitVec 32} (hroom : buffer.toNat + len ≤ 2 ^ 32)
    (hsize : size.toNat = N) (hN : 0 < N) (hlen : 62 + N ≤ len) (hNM : N ≤ M)
    (htop : data.toNat + M ≤ 2 ^ 32) (hout : ∀ i < len,
      (buffer + BitVec.ofNat 32 i).toNat < data.toNat ∨
        data.toNat + M ≤ (buffer + BitVec.ofNat 32 i).toNat) :
    ∀ i < N, memcpy m data (buffer + 62) size (data + BitVec.ofNat 32 i) =
      fileByte m buffer (62 + i) := by
  have hsrc : (buffer + 62).toNat = buffer.toNat + 62 :=
    toNat_add_lt (a := buffer) (k := 62) (n := len) hroom (by omega)
  have hapart : (buffer + 62).toNat + N ≤ data.toNat ∨ data.toNat + N ≤ (buffer + 62).toNat := by
    refine apart_of_bytes (by omega) hN hNM fun i hi => ?_
    rw [rowByte_addr]
    exact hout (62 + i) (by omega)
  intro i hi
  rw [memcpy_apply m (by omega) (by omega) (by omega) (by omega), rowByte_addr, fileByte]

/-- The image of the function is a live block with the pixels of a bitmap with the row length
that it takes, when the file goes on that far. -/
theorem unpack_spec (hs : SafeRow k bs) (hb : IsBmp k.mem buffer len w h)
    (huse : FileInUse k buffer len) (hfit : w * h < 2 ^ 32)
    (hlen : 62 + lineSize (w / 8) * h ≤ len)
    (h₁ : malloc fuel (BitVec.ofNat 32 (w * h)) k = some (img, k₁)) (hne₁ : img ≠ 0)
    (h₂ : malloc fuel (BitVec.ofNat 32 (lineSize (w / 8) * h)) k₁ = some (data, k₂))
    (hne₂ : data ≠ 0) :
    LiveBlock (unpack buffer img data w h k₂).heap img ∧
      w * h ≤ usable (unpack buffer img data w h k₂).heap img ∧
      ∀ y < h, ∀ x < w,
        (unpack buffer img data w h k₂).heap.mem (img + BitVec.ofNat 32 (y * w + x)) =
          Bitmap.pixel (fun i => fileByte k.mem buffer (62 + i)) (lineSize (w / 8)) h x y := by
  obtain ⟨hpos, hle, hw, hL, hmax, -⟩ := hb.sizes hfit
  obtain ⟨⟨bs₂, hs₂⟩, ⟨⟨himg, hroom₁⟩, ⟨hdata, hroom₂⟩, hne⟩, hkept⟩ :=
    hs.malloc_both h₁ hne₁ h₂ hne₂ (by omega) (by omega)
  rw [hw] at hroom₁
  rw [hL] at hroom₂
  obtain ⟨-, hend₁⟩ := hs₂.toRow.live_bounds himg
  obtain ⟨-, hend₂⟩ := hs₂.toRow.live_bounds hdata
  have htop : base + arena < 2 ^ 32 := by decide
  have hapart := hs₂.toRow.live_disjoint himg hdata hne
  have hw8 : 8 * (w / 8) = w := Nat.mul_div_cancel' hb.bytes
  -- the copy
  have hcopied := copy_spec (m := k₂.mem) hb.room hL hpos hlen hroom₂ (by omega)
    fun i hi => (hkept _ (huse i hi)).2
  have hcopy : ChangedOnly k₂.mem (memcpy k₂.mem data (buffer + 62)
      (BitVec.ofNat 32 (lineSize (w / 8) * h))) data.toNat (data.toNat + usable k₂ data) :=
    (memcpy_changedOnly k₂.mem (buffer + 62) (by omega)).mono le_rfl (by omega)
  have hs₃ := hs₂.store hdata hcopy
  obtain ⟨himg₃, husable₃⟩ := hs₂.live_store hdata hcopy himg
  obtain ⟨hdata₃, -⟩ := hs₂.live_store hdata hcopy hdata
  -- the loops
  have hu : Unpacks img data (w / 8) (lineSize (w / 8)) h := by
    refine ⟨by rw [hw8]; omega, Nat.le_add_right _ _, fun i hi => ?_⟩
    rw [toNat_add_lt (a := data) (n := lineSize (w / 8) * h) (by omega) hi, hw8]
    omega
  obtain ⟨hstored, hpixels⟩ := decode_spec hu (by rw [hw8]; exact hb.wide.2) hb.tall.2
    (memcpy k₂.mem data (buffer + 62) (BitVec.ofNat 32 (lineSize (w / 8) * h)))
  rw [OnlyImage, hw8] at hstored
  rw [hw8] at hpixels
  have hstored' := hstored.mono le_rfl (Nat.add_le_add_left (hroom₁.trans_eq husable₃.symm) _)
  have hs₄ := hs₃.store himg₃ hstored'
  obtain ⟨himg₄, husable₄⟩ := hs₃.live_store himg₃ hstored' himg₃
  obtain ⟨hdata₄, -⟩ := hs₃.live_store himg₃ hstored' hdata₃
  -- the data goes back, the image stays
  obtain ⟨bs₅, -, hrel⟩ := hs₄.free hdata₄
  obtain ⟨himg₅, husable₅⟩ := hrel.others himg₄ hne
  refine ⟨himg₅, hroom₁.trans_eq (husable₅.trans (husable₄.trans husable₃)).symm,
    fun y hy x hx => ?_⟩
  have hyend := row_end hy w
  have hcell : (img + BitVec.ofNat 32 (y * w + x)).toNat = img.toNat + (y * w + x) :=
    toNat_add_lt (n := w * h) (by omega) (by omega)
  have hkept' := hrel.kept himg₄ (img + BitVec.ofNat 32 (y * w + x)) (by omega) (by omega)
  refine (hkept'.trans (hpixels y hy x hx)).trans
    (Bitmap.pixel_congr (Nat.le_add_right _ _) hy (by rwa [hw8]) fun i hi => ?_)
  rw [hcopied i hi, fileByte, fileByte, (hkept _ (huse (62 + i) (by omega))).1]

end Unpack

/-! ### The condition -/

/-- The heap has room for the image and then for the copy of the rows. -/
def RoomFor (k : KernelHeap) (w h : ℕ) : Prop :=
  HoldsBoth k (w * h) ((lineSize (w / 8) * h + 3) / 4 * 4)

section Condition

variable {k : KernelHeap} {buffer : Addr} {len w h : ℕ}

/-- Both calls of `malloc` are granted when the heap has room. -/
theorem IsBmp.granted_iff (hb : IsBmp k.mem buffer len w h) {bs : List (Block ℕ)} (hr : Row k bs)
    (hfit : w * h < 2 ^ 32) {fuel : ℕ} {img data : Addr} {k₁ k₂ : KernelHeap}
    (h₁ : malloc fuel (BitVec.ofNat 32 (w * h)) k = some (img, k₁))
    (h₂ : malloc fuel (BitVec.ofNat 32 (lineSize (w / 8) * h)) k₁ = some (data, k₂)) :
    (img ≠ 0 ∧ data ≠ 0) ↔ RoomFor k w h := by
  obtain ⟨hpos, hle, hw, hL, hmax, hmod⟩ := hb.sizes hfit
  have hwhole : (w * h + 3) / 4 * 4 = w * h := by omega
  have hround₁ : (roundUp (BitVec.ofNat 32 (w * h))).toNat = w * h := by
    rw [toNat_roundUp (by omega), hw, hwhole]
  have hround₂ : (roundUp (BitVec.ofNat 32 (lineSize (w / 8) * h))).toNat =
      (lineSize (w / 8) * h + 3) / 4 * 4 := by
    rw [toNat_roundUp (by omega), hL]
  rw [hr.grants_both_iff (ne_zero_of_pos (by omega)) (ne_zero_of_pos (by omega)) h₁ h₂, hround₁,
    hround₂, RoomFor]

/-- The addresses that the function reads. -/
theorem mem_reads {img data a : Addr} (hN : lineSize (w / 8) * h < 2 ^ 32) :
    a ∈ (unpack buffer img data w h k).reads ↔ ∃ i, a = buffer + BitVec.ofNat 32 i ∧
      (i < 54 ∨ 62 ≤ i ∧ i < 62 + lineSize (w / 8) * h) := by
  simp only [unpack, BitVec.toNat_ofNat, Nat.mod_eq_of_lt hN, List.mem_append, List.mem_map,
    List.mem_range, rowByte_addr]
  constructor
  · rintro (⟨i, hi, rfl⟩ | ⟨i, hi, rfl⟩)
    · exact ⟨i, rfl, .inl hi⟩
    · exact ⟨62 + i, rfl, .inr ⟨by omega, by omega⟩⟩
  · rintro ⟨i, rfl, hi | ⟨hlo, hhi⟩⟩
    · exact .inl ⟨i, hi, rfl⟩
    · exact .inr ⟨i - 62, by omega, by rw [Nat.add_sub_cancel' hlo]⟩

/-- A file that is decoded had room, and its rows were read from their places. -/
theorem Decodes.condition (hk : Intact k) (hb : IsBmp k.mem buffer len w h)
    (huse : FileInUse k buffer len) (hd : Decodes k buffer len w h) :
    RoomFor k w h ∧ ReadsRows k.mem buffer len w h := by
  obtain ⟨bs, hs⟩ := hk
  obtain ⟨⟨fuel, r, hrun⟩, hall⟩ := hd
  have hdec := hall fuel r hrun
  obtain ⟨img, k₁, data, k₂, h₁, h₂, hne, rfl⟩ := hb.run_iff.mp hrun
  have hfit : w * h < 2 ^ 32 := hdec.room.trans_lt (BitVec.isLt _)
  obtain ⟨hpos, hle, hw, hL, hmax, -⟩ := hb.sizes hfit
  -- the copy is far shorter than the address space
  obtain ⟨⟨bs₂, hs₂⟩, ⟨⟨himg, hroom⟩, -, -⟩, -⟩ :=
    hs.malloc_both h₁ hne.1 h₂ hne.2 (by omega) (by omega)
  obtain ⟨-, hend⟩ := hs₂.toRow.live_bounds himg
  have htop : base + arena + 62 < 2 ^ 32 := by decide
  have hlen : 62 + lineSize (w / 8) * h ≤ len := by
    obtain ⟨i, hi, heq⟩ := hdec.reads (buffer + BitVec.ofNat 32 (62 + lineSize (w / 8) * h - 1))
      ((mem_reads (by omega)).mpr ⟨_, rfl, .inr ⟨by omega, by omega⟩⟩)
    have hroom' := hb.room
    have hnat := congrArg BitVec.toNat (add_left_cancel heq)
    rw [BitVec.toNat_ofNat, BitVec.toNat_ofNat] at hnat
    omega
  obtain ⟨-, -, hpixels⟩ := unpack_spec hs hb huse hfit hlen h₁ hne.1 h₂ hne.2
  have hw8 : 8 * (w / 8) = w := Nat.mul_div_cancel' hb.bytes
  refine ⟨(hb.granted_iff hs.toRow hfit h₁ h₂).mp hne, hlen,
    (Bitmap.pixels_eq_iff fun i => fileByte k.mem buffer (62 + i)).mp ?_⟩
  intro y hy x hx
  rw [hw8] at hx
  exact (hpixels y hy x hx).symm.trans (hdec.pixels y hy x hx)

/-- With room, and with the rows read from their places, a file is decoded. -/
theorem decodes_of_condition (hk : Intact k) (hb : IsBmp k.mem buffer len w h)
    (huse : FileInUse k buffer len) (hroom : RoomFor k w h)
    (hreads : ReadsRows k.mem buffer len w h) : Decodes k buffer len w h := by
  obtain ⟨bs, hs⟩ := hk
  obtain ⟨hlen, hrows⟩ := hreads
  have hfit : w * h < 2 ^ 32 := hroom.le_arena.trans_lt (by decide)
  obtain ⟨hpos, hle, -⟩ := hb.sizes hfit
  have hw8 : 8 * (w / 8) = w := Nat.mul_div_cancel' hb.bytes
  constructor
  · obtain ⟨fuel, img, k₁, data, k₂, h₁, h₂⟩ := hs.malloc_both_returns (BitVec.ofNat 32 (w * h))
      (BitVec.ofNat 32 (lineSize (w / 8) * h))
    exact ⟨fuel, _, hb.run_iff.mpr
      ⟨img, k₁, data, k₂, h₁, h₂, (hb.granted_iff hs.toRow hfit h₁ h₂).mpr hroom, rfl⟩⟩
  · intro fuel r hrun
    obtain ⟨img, k₁, data, k₂, h₁, h₂, hne, rfl⟩ := hb.run_iff.mp hrun
    obtain ⟨hlive, husable, hpixels⟩ := unpack_spec hs hb huse hfit hlen h₁ hne.1 h₂ hne.2
    constructor
    case width => exact Nat.mod_eq_of_lt (hb.wide.2.trans (by decide))
    case height => exact Nat.mod_eq_of_lt (hb.tall.2.trans (by decide))
    case live => exact hlive
    case room => exact husable
    case pixels =>
      intro y hy x hx
      rw [← hw8] at hx
      exact (hpixels y hy x (by omega)).trans
        ((Bitmap.pixels_eq_iff fun i => fileByte k.mem buffer (62 + i)).mpr hrows y hy x hx)
    case reads =>
      intro a ha
      obtain ⟨i, rfl, hi⟩ := (mem_reads (by omega)).mp ha
      exact ⟨i, by omega, rfl⟩

end Condition

/-- **Decoding is exact when the row length is.** `af_read_bmp_memory` decodes a BMP file exactly
when the heap has room for the image and the copy of the rows, and the rows of the length that it
takes lie in the file and have the bytes of its rows. -/
theorem decodes_iff {k : KernelHeap} {buffer : Addr} {len w h : ℕ} (hk : Intact k)
    (hb : IsBmp k.mem buffer len w h) (huse : FileInUse k buffer len) :
    Decodes k buffer len w h ↔ RoomFor k w h ∧ ReadsRows k.mem buffer len w h :=
  ⟨Decodes.condition hk hb huse, fun hc => decodes_of_condition hk hb huse hc.1 hc.2⟩

/-! ### Two small files -/

/-- The first 62 bytes of a file with two rows of `w` pixels, 70 bytes in all. -/
def bmpHeader (w : BitVec 8) : List (BitVec 8) :=
  [0x42, 0x4D, 70, 0, 0, 0, 0, 0, 0, 0, 62, 0, 0, 0, 40, 0, 0, 0, w, 0, 0, 0, 2, 0, 0, 0, 1, 0, 1, 0] ++
    List.replicate 24 0 ++ [0, 0, 0, 0, 0xFF, 0xFF, 0xFF, 0]

/-- A fresh heap, with a file of two rows of `w` pixels at `0x1000`. -/
def heapWithFile (w : BitVec 8) (rows : List (BitVec 8)) : KernelHeap :=
  (Session.start fun a => (bmpHeader w ++ rows).getD (a.toNat - 0x1000) 0).heap

/-- A file below the heap is in use. -/
theorem fileInUse_below {k : KernelHeap} {buffer : Addr} {len : ℕ}
    (hbelow : buffer.toNat + len ≤ base) : FileInUse k buffer len := by
  intro i hi
  have hnat : (buffer + BitVec.ofNat 32 i).toNat = buffer.toNat + i :=
    toNat_add_lt (hbelow.trans (by decide)) hi
  exact .inl (by omega)

/-- Two bytes a row: the rows are read from their places. -/
theorem decodes_sixteen :
    Decodes (heapWithFile 16 [0x80, 0x01, 0, 0, 0x41, 0xFF, 0, 0]) 0x1000 70 16 2 := by
  have hb : IsBmp (heapWithFile 16 [0x80, 0x01, 0, 0, 0x41, 0xFF, 0, 0]).mem 0x1000 70 16 2 := by
    constructor <;> decide +kernel
  exact (decodes_iff (start_intact _) hb (fileInUse_below (by decide))).mpr
    ⟨start_holdsBoth _ (by decide), hb.readsRows_of_even (by decide)⟩

/-- One byte a row: the second row of the file is looked for two bytes too early, and the top row
of the image is blank. -/
theorem not_decodes_eight :
    (Intact (heapWithFile 8 [0x80, 0, 0, 0, 0x41, 0, 0, 0]) ∧
      IsBmp (heapWithFile 8 [0x80, 0, 0, 0, 0x41, 0, 0, 0]).mem 0x1000 70 8 2 ∧
      FileInUse (heapWithFile 8 [0x80, 0, 0, 0, 0x41, 0, 0, 0]) 0x1000 70 ∧
      RoomFor (heapWithFile 8 [0x80, 0, 0, 0, 0x41, 0, 0, 0]) 8 2) ∧
    ¬ Decodes (heapWithFile 8 [0x80, 0, 0, 0, 0x41, 0, 0, 0]) 0x1000 70 8 2 := by
  have hb : IsBmp (heapWithFile 8 [0x80, 0, 0, 0, 0x41, 0, 0, 0]).mem 0x1000 70 8 2 := by
    constructor <;> decide +kernel
  have huse : FileInUse (heapWithFile 8 [0x80, 0, 0, 0, 0x41, 0, 0, 0]) 0x1000 70 :=
    fileInUse_below (by decide)
  refine ⟨⟨start_intact _, hb, huse, start_holdsBoth _ (by decide)⟩, fun hd => ?_⟩
  obtain ⟨-, -, hrows⟩ := Decodes.condition (start_intact _) hb huse hd
  have hbyte := hrows 1 (by decide) 0 (by decide)
  revert hbyte
  decide +kernel

end B2OS.Apple2
