import B2OS.Kernel.MallocClient

/-!
# `realloc`

`realloc` of `Src/memory.c` takes a new block, copies the old content and gives the old block
back. When the new block is split off in the middle of the list, the link back of the block
behind it is stale by the time `free` runs; it leads to the new block, which is in use, so
`free` does not follow it.

## Main results

* `realloc_atomic`: `realloc` answers `NULL` and changes nothing, or moves the content to a
  new live block and keeps all the others.
-/

namespace B2OS.Kernel

open ByteMemory BlockChain

/-- `realloc` came back with `q` for the live block `ptr`: the list still fills the arena, `q`
is a new live block of at least `size` bytes, it starts with the bytes of the old block, as many
as it was asked for and the old block holds, the old block is released, and the other live
blocks are as they were. -/
structure Moved (k k' : KernelHeap) (ptr q : Addr) (size : ℕ) : Prop where
  tiles : ListTiles k'
  fresh : ¬ LiveBlock k q
  live : LiveBlock k' q
  room : size ≤ usable k' q
  content : ∀ i < min size (usable k ptr),
    k'.mem (q + BitVec.ofNat 32 i) = k.mem (ptr + BitVec.ofNat 32 i)
  released : ¬ LiveBlock k' ptr
  others : ∀ r, LiveBlock k r → r ≠ ptr → LiveBlock k' r ∧ usable k' r = usable k r ∧
    ∀ i < usable k r, k'.mem (r + BitVec.ofNat 32 i) = k.mem (r + BitVec.ofNat 32 i)

/-- The number of bytes that `realloc` copies. -/
theorem minSize_toNat (size origSize : BitVec 32) :
    (if size > origSize then origSize else size).toNat = min size.toNat origSize.toNat := by
  split_ifs with h
  · have hlt := BitVec.lt_def.mp h
    omega
  · have hle := not_lt.mp fun hlt => h (BitVec.lt_def.mpr hlt)
    omega

/-- The copy of `realloc` into the new block, and the release of the old block. -/
theorem SafeRow.moved {k k₁ : KernelHeap} {bs : List (Block ℕ)} {ptr q : Addr}
    {size n : BitVec 32} (hs : SafeRow k₁ bs) (hg : Granted k k₁ q (roundUp size).toNat)
    {bs₀ : List (Block ℕ)} (hr₀ : Row k bs₀) (hptr : LiveBlock k ptr)
    (hsize : size.toNat ≤ maxRequest) (hn : n.toNat = min size.toNat (usable k ptr)) :
    Moved k (Kernel.free ptr { k₁ with mem := memcpy k₁.mem q ptr n }) ptr q size.toNat := by
  obtain ⟨hptr₁, husable⟩ := hg.others hptr
  have hround := le_roundUp hsize
  have hroom := hg.room
  have htop : base + arena < 2 ^ 32 := by decide
  have hne : q ≠ ptr := by
    rintro rfl
    exact hg.fresh hptr
  obtain ⟨-, hqend⟩ := hs.toRow.live_bounds hg.live
  obtain ⟨-, hend⟩ := hs.toRow.live_bounds hptr₁
  have hapart := hs.toRow.live_disjoint hg.live hptr₁ hne
  -- the copy goes into the new block, and leaves what is live
  have hcopy : ChangedOnly k₁.mem (memcpy k₁.mem q ptr n) q.toNat (q.toNat + usable k₁ q) :=
    (memcpy_changedOnly k₁.mem ptr (by omega)).mono le_rfl (by omega)
  have hs₂ := hs.store hg.live hcopy
  obtain ⟨hptr₂, -⟩ := hs.live_store hg.live hcopy hptr₁
  obtain ⟨hq₂, hqusable⟩ := hs.live_store hg.live hcopy hg.live
  obtain ⟨bs', hr', hrel⟩ := hs₂.free hptr₂
  obtain ⟨hq', hqusable'⟩ := hrel.others hq₂ hne
  constructor
  case tiles => exact ⟨bs', hr'⟩
  case fresh => exact hg.fresh
  case live => exact hq'
  case room => omega
  case content =>
    intro i hi
    obtain ⟨-, huse⟩ := hptr.inUse hr₀ (i := i) (by omega)
    have hqi : (q + BitVec.ofNat 32 i).toNat = q.toNat + i :=
      toNat_add_lt (n := usable k₁ q) (by omega) (by omega)
    rw [hrel.kept hq₂ _ (by omega) (by omega), ← hg.kept huse]
    exact memcpy_apply k₁.mem (by omega) (by omega) (by omega) (by omega)
  case released => exact hrel.gone
  case others =>
    intro r hr hrne
    obtain ⟨hr₁, hrusable⟩ := hg.others hr
    obtain ⟨hr₂, hrusable₂⟩ := hs.live_store hg.live hcopy hr₁
    obtain ⟨hr', hrusable'⟩ := hrel.others hr₂ hrne
    refine ⟨hr', by omega, fun i hi => ?_⟩
    obtain ⟨hri, huse⟩ := hr.inUse hr₀ hi
    have hout := hg.apart huse
    rw [hrel.kept hr₂ _ (by omega) (by omega), ← hg.kept huse]
    exact hcopy _ hout

/-- **`realloc` is atomic.** On a list that tiles the arena, `realloc` of a live block comes
back, and when it does it has answered `NULL` and changed nothing, or it has moved the block. -/
theorem realloc_atomic {k : KernelHeap} {ptr : Addr} {size : BitVec 32} (hk : Tiles k)
    (hptr : LiveBlock k ptr) (hsize : size.toNat ≤ maxRequest) :
    (∃ fuel r, realloc fuel ptr size k = some r) ∧
      ∀ fuel q k', realloc fuel ptr size k = some (q, k') →
        (q = 0 ∧ k' = k) ∨ (q ≠ 0 ∧ Moved k k' ptr q size.toNat) := by
  obtain ⟨bs, hs⟩ := hk.intact
  have hne : ptr ≠ 0 := by
    obtain ⟨hlo, -⟩ := hs.toRow.live_bounds hptr
    exact ne_zero_of_pos (by simp only [base] at hlo; omega)
  constructor
  · obtain ⟨fuel, r, hcall⟩ := hs.toRow.malloc_returns size
    refine ⟨fuel, Option.isSome_iff_exists.mp ?_⟩
    rw [realloc, if_neg hne, hcall]
    rfl
  · intro fuel q k' hcall
    rw [realloc, if_neg hne] at hcall
    obtain ⟨⟨buf, k₁⟩, hmalloc, hmap⟩ := Option.map_eq_some_iff.mp hcall
    by_cases hbuf : buf = 0
    · subst hbuf
      obtain ⟨rfl, -⟩ := hs.toRow.malloc_null hmalloc
      simp only [if_true, Prod.mk.injEq] at hmap
      exact .inl ⟨hmap.1.symm, hmap.2.symm⟩
    · obtain ⟨bs₁, hs₁, -, hg⟩ := hs.malloc hmalloc hbuf
      simp only [if_neg hbuf, Prod.mk.injEq] at hmap
      obtain ⟨rfl, rfl⟩ := hmap
      refine .inr ⟨hbuf, hs₁.moved hg hs.toRow hptr hsize ?_⟩
      obtain ⟨-, husable⟩ := hg.others hptr
      rw [minSize_toNat, ← husable]
      rfl

/-- A live pointer is a live block. -/
theorem Layout.liveBlock {k : KernelHeap} {live : ℕ → Option ℕ} {bs : List (Block ℕ)}
    (hl : Layout k live bs) {ptr : Addr} {n : ℕ} (hlive : live ptr.toNat = some n) :
    LiveBlock k ptr := by
  obtain ⟨-, -, -, -, -, hmem⟩ := hl.entry hlive
  have hr : Row k bs := ⟨hl.head, hl.shape.tiling.forward⟩
  exact hr.live_of_mem hmem

/-- A block of 64 bytes grows to 100. -/
theorem realloc_atomic_grow :
    (∃ fuel r, realloc fuel 0x100010 100 ((Session.start fun _ => 0).malloc 3 64).heap = some r) ∧
      ∀ fuel q k',
        realloc fuel 0x100010 100 ((Session.start fun _ => 0).malloc 3 64).heap = some (q, k') →
          (q = 0 ∧ k' = ((Session.start fun _ => 0).malloc 3 64).heap) ∨
            (q ≠ 0 ∧ Moved ((Session.start fun _ => 0).malloc 3 64).heap k' 0x100010 q 100) := by
  have hstep : HeapStep (Session.start fun _ => 0) (.malloc 64)
      ((Session.start fun _ => 0).malloc 3 64) := Session.malloc_step 3 (by decide)
  obtain ⟨bs, hl⟩ := hstep.layout (start_layout _) (start_malloc_guard _ _) (.inr trivial)
  have hlive : ((Session.start fun _ => 0).malloc 3 64).live (0x100010 : Addr).toNat = some 64 := by
    decide
  exact realloc_atomic hl.tiles (hl.liveBlock hlive) (by decide)

end B2OS.Kernel
