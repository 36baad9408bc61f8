import B2OS.Kernel.MallocForward

/-!
# Requests Near the Limits

`malloc` of `Src/memory.c` rounds a request up to whole words, and `calloc` multiplies two
numbers, both modulo 2^32. A request that wraps becomes a small one, and a free block that
holds the small one is given out for the large one.

## Main results

* `Row.malloc_exact`, `Row.malloc_short`: what `malloc` gives for a request that wraps, and for
  one that does not.
* `exact_iff`: `malloc`, `realloc` of `NULL` and `calloc` are exact within the limits, and
  nowhere else.
-/

namespace B2OS.Kernel

open ByteMemory BlockChain

/-- A free block of the list holds `n` bytes. -/
def Holds (k : KernelHeap) (n : ℕ) : Prop :=
  ∃ p, OnList k p ∧ used k.mem p = false ∧ n ≤ (length k.mem p).toNat

/-- A call for `n` bytes is exact: it comes back, with a live block that has room for `n`
bytes or with `NULL` and the heap as it was, and it is `NULL` when no free block holds `n`
bytes. -/
structure Exact (k : KernelHeap) (n : ℕ) (call : ℕ → Option (Addr × KernelHeap)) : Prop where
  returns : ∃ fuel r, call fuel = some r
  room : ∀ {fuel ptr k'}, call fuel = some (ptr, k') → ptr ≠ 0 →
    LiveBlock k' ptr ∧ n ≤ usable k' ptr
  null : ∀ {fuel k'}, call fuel = some (0, k') → k' = k
  refuses : ¬ Holds k n → ∀ {fuel ptr k'}, call fuel = some (ptr, k') → ptr = 0

/-- What `calloc` does to the memory that its call of `malloc` leaves: the bytes of the product
become zero, and no others change. -/
def Zeroes (k : KernelHeap) (num size : BitVec 32) : Prop :=
  ∀ fuel ptr k', calloc fuel num size k = some (ptr, k') → ptr ≠ 0 →
    ∃ k₁, malloc fuel (num * size) k = some (ptr, k₁) ∧
      ∀ x : Addr, k'.mem x =
        if ptr.toNat ≤ x.toNat ∧ x.toNat < ptr.toNat + num.toNat * size.toNat then 0
        else k₁.mem x

/-- A request of `n` bytes does not wrap when it is rounded up, or it wraps to `0` before, or no
free block holds what it wraps to. -/
def InLimits (k : KernelHeap) (n : ℕ) : Prop :=
  n ≤ maxRequest ∨ BitVec.ofNat 32 n = 0 ∨ ¬ Holds k (roundUp (BitVec.ofNat 32 n)).toNat

section Row

variable {k k' : KernelHeap} {bs : List (Block ℕ)} {ptr : Addr} {n fuel : ℕ}

theorem Row.holds_iff (hr : Row k bs) : Holds k n ↔ ∃ b ∈ bs, b.tag = none ∧ n ≤ b.len := by
  constructor
  · rintro ⟨p, hon, hfree, hlen⟩
    obtain ⟨pre, b, post, rfl, hp⟩ := mem_places_iff.mp (hr.onList_iff.mp hon)
    obtain ⟨-, hlen', hflag⟩ := row_header hr.forward hp
    rw [hfree] at hflag
    exact ⟨b, by simp, by simpa using hflag.symm, by rwa [← hlen']⟩
  · rintro ⟨b, hb, hfree, hlen⟩
    obtain ⟨pre, post, rfl⟩ := List.append_of_mem hb
    have hspan := hr.forward.span
    have hp : (BitVec.ofNat 32 (base + span recordSize pre)).toNat =
        base + span recordSize pre := by
      rw [BitVec.toNat_ofNat, Nat.mod_eq_of_lt]
      rw [span_append] at hspan
      simp only [kernelArena, base, arena] at *
      omega
    obtain ⟨-, hlen', hflag⟩ := row_header hr.forward hp
    rw [hfree] at hflag
    exact ⟨_, hr.onList_iff.mpr (mem_places_iff.mpr ⟨pre, b, post, rfl, hp⟩), hflag,
      by rwa [hlen']⟩

/-- The new block of a call of `malloc` has room for the rounded request, and fits the
arena. -/
theorem Row.malloc_room (hr : Row k bs) {size : BitVec 32}
    (h : Kernel.malloc fuel size k = some (ptr, k')) (hne : ptr ≠ 0) :
    ∃ bs', Row k' bs' ∧ LiveBlock k' ptr ∧ (roundUp size).toNat ≤ usable k' ptr ∧
      ptr.toNat + usable k' ptr ≤ base + arena ∧ Holds k (roundUp size).toNat := by
  rcases hr.malloc h with ⟨rfl, -⟩ | ⟨pre, b, post, rfl, hfree, -, hfit, hptr, hr', -⟩
  · exact absurd rfl hne
  · obtain ⟨len, rest, -, hlen, hlenb, hpay⟩ := carve_spec size.toNat hfit
    have hmem : ⟨ptr.toNat, len, size.toNat⟩ ∈ payloads recordSize base
        (pre ++ (carve b (roundUp size).toNat size.toNat ++ post)) := by
      rw [payloads_append, payloads_append, hpay, hptr]
      simp
    have hend := (payload_bounds hmem).2
    rw [hr'.forward.span] at hend
    refine ⟨_, hr', hr'.live_of_mem hmem, ?_, ?_, hr.holds_iff.mpr ⟨b, by simp, hfree, hfit⟩⟩
    · rwa [hr'.usable_eq hmem]
    · rwa [hr'.usable_eq hmem]

/-- A call of `malloc` is `NULL` only for `0` bytes, or when no free block holds the rounded
request. -/
theorem Row.malloc_null (hr : Row k bs) {size : BitVec 32}
    (h : Kernel.malloc fuel size k = some (0, k')) :
    k' = k ∧ (size = 0 ∨ ¬ Holds k (roundUp size).toNat) := by
  rcases hr.malloc h with ⟨-, rfl, hnone⟩ | ⟨pre, b, post, rfl, -, -, -, hptr, -⟩
  · refine ⟨rfl, hnone.imp_right fun hall => ?_⟩
    rw [hr.holds_iff]
    rintro ⟨b, hb, hfree, hlen⟩
    exact absurd (hall b hb hfree) (not_lt.mpr hlen)
  · have hzero : (0 : Addr).toNat = 0 := rfl
    rw [hzero, base] at hptr
    omega

/-- Within the limits, a call of `malloc` that gives out a block was not made for less than the
request. -/
theorem Row.le_of_inLimits (hr : Row k bs) (h : InLimits k n)
    (hcall : Kernel.malloc fuel (BitVec.ofNat 32 n) k = some (ptr, k')) (hne : ptr ≠ 0) :
    (BitVec.ofNat 32 n).toNat = n ∧ n ≤ (roundUp (BitVec.ofNat 32 n)).toNat := by
  rcases h with hle | hzero | hnone
  · have hnat : (BitVec.ofNat 32 n).toNat = n := by
      rw [BitVec.toNat_ofNat, Nat.mod_eq_of_lt]
      rw [maxRequest] at hle
      omega
    have hround : (BitVec.ofNat 32 n).toNat ≤ (roundUp (BitVec.ofNat 32 n)).toNat :=
      le_roundUp (by rwa [hnat])
    rw [hnat] at hround
    exact ⟨hnat, hround⟩
  · rw [hzero, Kernel.malloc, if_pos rfl] at hcall
    exact absurd (congrArg Prod.fst (Option.some.inj hcall)).symm hne
  · obtain ⟨-, -, -, -, -, hholds⟩ := hr.malloc_room hcall hne
    exact absurd hholds hnone

/-- Within the limits, `malloc` of what the request wraps to is exact. -/
theorem Row.malloc_exact (hr : Row k bs) (h : InLimits k n) :
    Exact k n fun fuel => Kernel.malloc fuel (BitVec.ofNat 32 n) k where
  returns := hr.malloc_returns _
  room hcall hne := by
    obtain ⟨-, -, hlive, hroom, -, -⟩ := hr.malloc_room hcall hne
    exact ⟨hlive, (hr.le_of_inLimits h hcall hne).2.trans hroom⟩
  null hcall := (hr.malloc_null hcall).1
  refuses hnot fuel ptr k' hcall := by
    by_contra hne
    obtain ⟨-, -, -, -, -, p, hon, hfree, hlen⟩ := hr.malloc_room hcall hne
    exact hnot ⟨p, hon, hfree, (hr.le_of_inLimits h hcall hne).2.trans hlen⟩

/-- Past the limits, `malloc` gives out a block that is too short. -/
theorem Row.malloc_short (hr : Row k bs) (h : ¬ InLimits k n) :
    ∃ fuel ptr k', Kernel.malloc fuel (BitVec.ofNat 32 n) k = some (ptr, k') ∧ ptr ≠ 0 ∧
      usable k' ptr < n := by
  rw [InLimits, not_or, not_or, not_not] at h
  obtain ⟨hover, hzero, hholds⟩ := h
  obtain ⟨fuel, ⟨ptr, k'⟩, hcall⟩ := hr.malloc_returns (BitVec.ofNat 32 n)
  have hne : ptr ≠ 0 := by
    rintro rfl
    obtain ⟨-, hw | hnone⟩ := hr.malloc_null hcall
    · exact hzero hw
    · exact hnone hholds
  obtain ⟨-, -, -, -, hend, -⟩ := hr.malloc_room hcall hne
  refine ⟨fuel, ptr, k', hcall, hne, ?_⟩
  simp only [maxRequest, base, arena] at *
  omega

/-! ### `calloc` -/

/-- The calls of `malloc` that stand behind the calls of `calloc`. -/
theorem calloc_cases {num size : BitVec 32}
    (h : calloc fuel num size k = some (ptr, k')) :
    ∃ k₁, Kernel.malloc fuel (num * size) k = some (ptr, k₁) ∧
      k' = if ptr ≠ 0 then { k₁ with mem := memset k₁.mem ptr 0 (num * size) } else k₁ := by
  obtain ⟨⟨buf, k₁⟩, hcall, hmap⟩ := Option.map_eq_some_iff.mp h
  dsimp only at hmap
  split_ifs at hmap with hne
  · obtain ⟨rfl, rfl⟩ := Prod.mk.inj hmap
    exact ⟨k₁, hcall, by rw [if_pos hne]⟩
  · obtain ⟨rfl, rfl⟩ := Prod.mk.inj hmap
    exact ⟨k₁, hcall, by rw [if_neg hne]⟩

theorem mul_eq_ofNat (num size : BitVec 32) :
    num * size = BitVec.ofNat 32 (num.toNat * size.toNat) :=
  BitVec.eq_of_toNat_eq (by rw [BitVec.toNat_mul, BitVec.toNat_ofNat])

/-- The bytes that `memset` zeroes in a block with room for them. -/
theorem memset_zero_apply (m : Memory) {w : BitVec 32} (hfit : ptr.toNat + w.toNat ≤ 2 ^ 32)
    (x : Addr) : memset m ptr 0 w x =
      if ptr.toNat ≤ x.toNat ∧ x.toNat < ptr.toNat + w.toNat then 0 else m x := by
  rw [memset_apply]
  have hx := x.isLt
  have hptr := ptr.isLt
  have hsub : (x - ptr).toNat < w.toNat ↔
      ptr.toNat ≤ x.toNat ∧ x.toNat < ptr.toNat + w.toNat := by
    rw [BitVec.toNat_sub]
    omega
  simp only [hsub]

/-- Within the limits, `calloc` is exact, and zeroes the bytes of the product. -/
theorem Row.calloc_exact (hr : Row k bs) {num size : BitVec 32}
    (h : InLimits k (num.toNat * size.toNat)) :
    Exact k (num.toNat * size.toNat) (fun fuel => calloc fuel num size k) ∧
      Zeroes k num size := by
  have hmalloc := hr.malloc_exact h
  rw [← mul_eq_ofNat] at hmalloc
  -- the block has room for the bytes that `memset` stores
  have hroom : ∀ {fuel ptr k₁}, Kernel.malloc fuel (num * size) k = some (ptr, k₁) → ptr ≠ 0 →
      (num * size).toNat = num.toNat * size.toNat ∧
        (num * size).toNat ≤ usable k₁ ptr ∧ ptr.toNat + usable k₁ ptr ≤ base + arena := by
    intro fuel ptr k₁ hcall hne
    obtain ⟨-, -, -, hlen, hend, -⟩ := hr.malloc_room hcall hne
    rw [mul_eq_ofNat] at hcall hlen ⊢
    obtain ⟨hnat, hle⟩ := hr.le_of_inLimits h hcall hne
    exact ⟨hnat, (hnat.le.trans hle).trans hlen, hend⟩
  have htop : base + arena < 2 ^ 32 := by decide
  refine ⟨⟨?_, ?_, ?_, ?_⟩, ?_⟩
  · obtain ⟨fuel, r, hcall⟩ := hmalloc.returns
    refine ⟨fuel, Option.isSome_iff_exists.mp ?_⟩
    rw [calloc, hcall]
    rfl
  · intro fuel ptr k' hcall hne
    obtain ⟨k₁, hm, rfl⟩ := calloc_cases hcall
    obtain ⟨hnat, hle, hend⟩ := hroom hm hne
    obtain ⟨bs₁, hr₁, hlive, -, -, -⟩ := hr.malloc_room hm hne
    obtain ⟨t, hmem⟩ := hr₁.live_iff.mp hlive
    obtain ⟨pre, b, post, rfl, -, haddr, hlen⟩ := mem_payloads_iff.mp hmem
    have hp : (ptr - headerLen).toNat = base + span recordSize pre := entry_toNat haddr
    dsimp only at haddr hlen
    rw [if_pos hne]
    have hch : ChangedOnly k₁.mem (memset k₁.mem ptr 0 (num * size)) ptr.toNat
        (ptr.toNat + (num * size).toNat) := memset_changedOnly k₁.mem 0 (by omega)
    have hr' : Row { k₁ with mem := memset k₁.mem ptr 0 (num * size) } (pre ++ b :: post) :=
      ⟨hr₁.head, hr₁.forward.changedOnly hp hch (by omega) (by omega)⟩
    refine ⟨hr'.live_of_mem hmem, ?_⟩
    rw [hr'.usable_eq hmem, ← hnat]
    exact hle
  · intro fuel k' hcall
    obtain ⟨k₁, hm, rfl⟩ := calloc_cases hcall
    exact hmalloc.null hm
  · intro hnot fuel ptr k' hcall
    obtain ⟨k₁, hm, -⟩ := calloc_cases hcall
    exact hmalloc.refuses hnot hm
  · intro fuel ptr k' hcall hne
    obtain ⟨k₁, hm, rfl⟩ := calloc_cases hcall
    obtain ⟨hnat, hle, hend⟩ := hroom hm hne
    refine ⟨k₁, hm, fun x => ?_⟩
    rw [if_pos hne]
    dsimp only
    rw [memset_zero_apply k₁.mem (by omega), hnat]

/-- Past the limits, `calloc` gives out a block that is too short. -/
theorem Row.calloc_short (hr : Row k bs) {num size : BitVec 32}
    (h : ¬ InLimits k (num.toNat * size.toNat)) :
    ¬ (Exact k (num.toNat * size.toNat) (fun fuel => calloc fuel num size k) ∧
      Zeroes k num size) := by
  rintro ⟨hexact, hzeroes⟩
  obtain ⟨fuel, ptr, k₁, hm, hne, hshort⟩ := hr.malloc_short h
  rw [← mul_eq_ofNat] at hm
  have hcall : calloc fuel num size k =
      some (ptr, { k₁ with mem := memset k₁.mem ptr 0 (num * size) }) := by
    rw [calloc, hm, Option.map_some]
    simp only [if_pos hne]
  obtain ⟨-, hroom⟩ := hexact.room hcall hne
  -- the header of the block is not among the zeroed bytes
  obtain ⟨k₁', hm', hbytes⟩ := hzeroes _ _ _ hcall hne
  obtain rfl : k₁' = k₁ := (Prod.mk.inj (Option.some.inj (hm'.symm.trans hm))).2
  obtain ⟨bs₁, hr₁, hlive, -, -, -⟩ := hr.malloc_room hm hne
  obtain ⟨t, hmem⟩ := hr₁.live_iff.mp hlive
  obtain ⟨pre, b, post, rfl, -, haddr, -⟩ := mem_payloads_iff.mp hmem
  have hp : (ptr - headerLen).toNat = base + span recordSize pre := entry_toNat haddr
  obtain ⟨-, hfits⟩ := hr₁.forward.bounds hp
  have hch : ChangedOnly k₁'.mem (memset k₁'.mem ptr 0 (num * size)) ptr.toNat
      (ptr.toNat + num.toNat * size.toNat) :=
    fun x hx => (hbytes x).trans (if_neg (by omega))
  have hrec := hch.record_eq hfits (.inl (by rw [hp]; exact haddr.ge))
  have hsame : usable { k₁' with mem := memset k₁'.mem ptr 0 (num * size) } ptr =
      usable k₁' ptr := congrArg (fun r : Record => r.word2.toNat) hrec
  omega

end Row

theorem realloc_null (fuel : ℕ) (size : BitVec 32) (k : KernelHeap) :
    realloc fuel 0 size k = malloc fuel size k := by
  rw [realloc, if_pos rfl]

theorem Row.malloc_exact_iff {k : KernelHeap} {bs : List (Block ℕ)} (hr : Row k bs)
    (size : BitVec 32) :
    Exact k size.toNat (fun fuel => Kernel.malloc fuel size k) ↔ InLimits k size.toNat := by
  have hsize : BitVec.ofNat 32 size.toNat = size := by
    rw [BitVec.ofNat_toNat, BitVec.setWidth_eq]
  constructor
  · intro hexact
    by_contra hlimits
    obtain ⟨fuel, ptr, k', hcall, hne, hshort⟩ := hr.malloc_short hlimits
    rw [hsize] at hcall
    exact absurd (hexact.room hcall hne).2 (not_le.mpr hshort)
  · intro hlimits
    have hexact := hr.malloc_exact hlimits
    rwa [hsize] at hexact

/-- **Sizes at the limits.** On a list that fills the arena, the calls that allocate are exact
for a request if and only if it is within the limits. -/
theorem exact_iff {k : KernelHeap} (hk : ListTiles k) :
    (∀ size : BitVec 32,
      (Exact k size.toNat (fun fuel => malloc fuel size k) ↔ InLimits k size.toNat) ∧
      (Exact k size.toNat (fun fuel => realloc fuel 0 size k) ↔ InLimits k size.toNat)) ∧
    ∀ num size : BitVec 32,
      (Exact k (num.toNat * size.toNat) (fun fuel => calloc fuel num size k) ∧
        Zeroes k num size) ↔ InLimits k (num.toNat * size.toNat) := by
  obtain ⟨bs, hr⟩ := hk
  refine ⟨fun size => ⟨hr.malloc_exact_iff size, ?_⟩, fun num size =>
    ⟨fun h => not_not.mp fun hlimits => hr.calloc_short hlimits h, hr.calloc_exact⟩⟩
  simp only [realloc_null]
  exact hr.malloc_exact_iff size

theorem start_listTiles (m : Memory) : ListTiles (Session.start m).heap :=
  have hl := start_layout m
  ⟨_, hl.head, hl.shape.tiling.forward⟩

/-- The limits on the heap that `k_init_mem` leaves. -/
theorem exact_iff_start :
    (∀ size : BitVec 32,
      (Exact (Session.start fun _ => 0).heap size.toNat
          (fun fuel => malloc fuel size (Session.start fun _ => 0).heap) ↔
        InLimits (Session.start fun _ => 0).heap size.toNat) ∧
      (Exact (Session.start fun _ => 0).heap size.toNat
          (fun fuel => realloc fuel 0 size (Session.start fun _ => 0).heap) ↔
        InLimits (Session.start fun _ => 0).heap size.toNat)) ∧
    ∀ num size : BitVec 32,
      (Exact (Session.start fun _ => 0).heap (num.toNat * size.toNat)
          (fun fuel => calloc fuel num size (Session.start fun _ => 0).heap) ∧
        Zeroes (Session.start fun _ => 0).heap num size) ↔
      InLimits (Session.start fun _ => 0).heap (num.toNat * size.toNat) :=
  exact_iff (start_listTiles fun _ => 0)

/-- A request of 2^32 - 1 bytes is rounded up to none, and gets a block without payload. -/
theorem malloc_wraps :
    ¬ ∀ k, ListTiles k →
      (∀ size : BitVec 32, Exact k size.toNat (fun fuel => malloc fuel size k) ∧
        Exact k size.toNat (fun fuel => realloc fuel 0 size k)) ∧
      ∀ num size : BitVec 32,
        Exact k (num.toNat * size.toNat) (fun fuel => calloc fuel num size k) ∧
          Zeroes k num size := by
  intro h
  obtain ⟨hmalloc, -⟩ := (h _ (start_listTiles fun _ => 0)).1 0xFFFFFFFF
  have hcall : (malloc 3 0xFFFFFFFF (Session.start fun _ => 0).heap).map
      (fun r => (r.1, usable r.2 r.1)) = some (0x100010, 0) := by decide
  obtain ⟨⟨ptr, k'⟩, hsome, hr⟩ := Option.map_eq_some_iff.mp hcall
  obtain ⟨rfl, husable⟩ := Prod.mk.inj hr
  obtain ⟨-, hroom⟩ := hmalloc.room hsome (by decide)
  rw [husable] at hroom
  exact absurd hroom (by decide)

end B2OS.Kernel
