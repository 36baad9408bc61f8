import B2OS.Kernel.HeapRun
import B2OS.Kernel.MallocRun

/-!
# Where the Allocators Store

`malloc` and `free` of `Src/memory.c` store into block headers only, and so do `heap_alloc`
and `heap_free` of `Src/memory/heap.c`. This module bounds the addresses that a step of
either allocator changes.

The chain of `heap.c` never leaves its region. The list of `memory.c` has a last block that
reaches to the end of the arena, so a bound `top` below that end says that all headers, and
all payloads in use with the header behind them, lie below `top`; a call of `malloc` keeps it
when the block that it takes stays below.

## Main results

* `Kernel.HeapStep.confined`: a step of the kernel heap that stays below `top` keeps the
  layout, and changes bytes of the arena below `top` only.
* `Heap.HeapStep.confined`: a step of the heap that fits changes bytes of its region only.
* `heapInit_changedOnly`: so does `heap_init`.
-/

namespace B2OS.Kernel

open ByteMemory BlockChain

/-! ### The stores of `malloc` and `free` -/

section Stores

variable {m : Memory} {p n : Addr} {lo top : ℕ}

theorem mergeStores_changedOnly (htop : top ≤ 2 ^ 32) (l : BitVec 32) (hp : Inside p lo top)
    (hn : n ≠ 0 → Inside n lo top) : ChangedOnly m (mergeStores m p n l) lo top := by
  have hself := ((ChangedOnly.refl m lo top).setWord2 hp htop l).setWord1 hp htop n
  rw [mergeStores]
  split_ifs with hne
  · exact hself.setWord0 (hn hne) htop p
  · exact hself

theorem takeBlock_changedOnly (htop : top ≤ 2 ^ 32) {size : BitVec 32} (hp : Inside p lo top)
    (hsplit : size + headerLen ≤ length m p → Inside (p + headerLen + size) lo top) :
    ChangedOnly m (takeBlock m size p) lo top := by
  rw [takeBlock]
  split_ifs with hroom
  · have hq := hsplit hroom
    refine ChangedOnly.setFlag ?_ hp htop true
    exact ((((((ChangedOnly.refl m lo top).setWord0 hq htop _).setWord1 hq htop _).setWord1 hp
      htop _).setFlag hq htop _).setWord2 hq htop _).setWord2 hp htop _
  · exact (ChangedOnly.refl m lo top).setFlag hp htop true

end Stores

section Shape

variable {m : Memory} {pre post : List (Block ℕ)} {b : Block ℕ} {p : Addr} {top : ℕ}

theorem mergeNext_changedOnly (hs : Shape m (pre ++ b :: post))
    (hp : p.toNat = base + BlockChain.span recordSize pre)
    (hbelow : HeadersBelow recordSize top base (pre ++ b :: post)) (htop : top ≤ 2 ^ 32) :
    ChangedOnly m (mergeNext m p) base top := by
  obtain ⟨hsame, -⟩ | ⟨c, post, rfl, -, hq, hmerge⟩ :=
    mergeNext_cases hs.tiling.forward hp
  · rw [hsame]
    exact .refl m base top
  · have hsc : Shape m ((pre ++ [b]) ++ c :: post) := by simpa using hs
    have hbelow' : HeadersBelow recordSize top base ((pre ++ [b]) ++ c :: post) := by
      simpa using hbelow
    have hq' : (next m p).toNat = base + BlockChain.span recordSize (pre ++ [b]) := by
      rw [hq, hp, span_append, span_cons, span_nil]
      omega
    obtain ⟨-, hnext, -, -⟩ := hsc.header hq'
    rw [hmerge]
    exact mergeStores_changedOnly htop _ (hbelow.inside hp) (hbelow'.link_inside hq' hnext)

theorem mergePrev_changedOnly (hs : Shape m (pre ++ b :: post))
    (hp : p.toNat = base + BlockChain.span recordSize pre)
    (hbelow : HeadersBelow recordSize top base (pre ++ b :: post)) (htop : top ≤ 2 ^ 32) :
    ChangedOnly m (mergePrev m p) base top := by
  rcases mergePrev_cases hs hp with ⟨hsame, -⟩ | ⟨pre, a, rfl, -, hprev, -, hmerge⟩
  · rw [hsame]
    exact .refl m base top
  · have hbelow' : HeadersBelow recordSize top base (pre ++ a :: b :: post) := by
      simpa using hbelow
    obtain ⟨-, hnext, -, -⟩ := hs.header hp
    rw [hmerge]
    exact mergeStores_changedOnly htop _ (hbelow'.inside hprev) (hbelow.link_inside hp hnext)

/-- `free` stores into headers of the list only. -/
theorem free_changedOnly (hs : Shape m (pre ++ b :: post))
    (hp : p.toNat = base + BlockChain.span recordSize pre)
    (hbelow : HeadersBelow recordSize top base (pre ++ b :: post)) (htop : top ≤ 2 ^ 32) :
    ChangedOnly m (mergePrev (mergeNext (setUsed m p false) p) p) base top := by
  obtain ⟨hpre, hpost⟩ := headersBelow_append.mp hbelow
  have hmark : ChangedOnly m (setUsed m p false) base top :=
    (ChangedOnly.refl m base top).setFlag (hbelow.inside hp) htop false
  have hfree := hs.setFree hp
  obtain ⟨b', post', hs', -, -, -, hheaders⟩ := mergeNext_shape hfree hp rfl
  have hnext := mergeNext_changedOnly hfree hp (headersBelow_append.mpr ⟨hpre, hpost⟩) htop
  have hprev := mergePrev_changedOnly hs' hp
    (headersBelow_append.mpr ⟨hpre, hheaders _ _ hpost⟩) htop
  exact (hmark.trans hnext).trans hprev

end Shape

/-! ### Steps below an address -/

/-- The payloads in use, each with room for one header behind it, end at `top` or below. -/
def PayloadsBelow (top : ℕ) (bs : List (Block ℕ)) : Prop :=
  ∀ x ∈ payloads recordSize base bs, x.addr + x.len + recordSize ≤ top

/-- The block that `malloc` takes, and the header behind it, end at `top` or below. -/
def StaysBelow (top : ℕ) (k : KernelHeap) (size : BitVec 32) : Prop :=
  size ≠ 0 → ∀ fuel ptr, findFit k.mem (roundUp size) fuel k.head = some ptr → ptr ≠ 0 →
    ptr.toNat + recordSize + taken k.mem (roundUp size) ptr + recordSize ≤ top

/-- The block that a call takes stays below `top`. -/
def HeapOp.StaysBelow (top : ℕ) (s : Session) : HeapOp → Prop
  | .malloc size | .realloc _ size => Kernel.StaysBelow top s.heap size
  | .calloc num size => Kernel.StaysBelow top s.heap (num * size)
  | .free _ | .store _ _ _ => True

section Layout

variable {k k' : KernelHeap} {live : ℕ → Option ℕ} {bs : List (Block ℕ)} {top : ℕ}

theorem Layout.headersBelow (hl : Layout k live bs) (hlo : base + recordSize ≤ top)
    (hbelow : PayloadsBelow top bs) : HeadersBelow recordSize top base bs :=
  hl.coalesced.headersBelow hlo hbelow

/-- When every live pointer ends below `top`, with room for a header, so does every payload
in use. -/
theorem Layout.payloadsBelow (hl : Layout k live bs)
    (hall : ∀ ptr n, live ptr.toNat = some n →
      ptr.toNat + usable k ptr + headerLen.toNat ≤ top) : PayloadsBelow top bs := by
  intro x hx
  obtain ⟨pre, b, post, rfl, -, haddr, hlen⟩ := mem_payloads_iff.mp hx
  have hbounds := payload_bounds hx
  have hspan : span recordSize (pre ++ b :: post) = arena := hl.shape.span
  have hptr : (BitVec.ofNat 32 x.addr).toNat = x.addr := by
    rw [BitVec.toNat_ofNat, Nat.mod_eq_of_lt]
    simp only [base, arena] at *
    omega
  have hlive : live (BitVec.ofNat 32 x.addr).toNat = some x.tag := by
    rw [hptr]
    exact (hl.owned _ _).mpr ⟨x.len, hx⟩
  have hend := hall _ _ hlive
  obtain ⟨-, -, hsize, -⟩ := hl.shape.header (entry_toNat (hptr.trans haddr))
  rwa [usable, hsize, hptr, ← hlen] at hend

/-- Stores above the headers keep the layout. -/
theorem Layout.frame (hl : Layout k live bs) {m' : Memory} {hi : ℕ}
    (hbelow : HeadersBelow recordSize top base bs) (htop : top ≤ 2 ^ 32)
    (hch : ChangedOnly k.mem m' top hi) : Layout { k with mem := m' } live bs where
  head := hl.head
  shape := ⟨hl.shape.tiling.frame hbelow htop hch (.inl le_rfl), hl.shape.sized⟩
  owned := hl.owned
  coalesced := hl.coalesced

/-- A call of `malloc` that stays below `top`. -/
theorem Layout.malloc_confined (hl : Layout k live bs) {size : BitVec 32} {fuel : ℕ}
    {ptr : Addr} (hsafe : ¬ SplitsMiddle k size) (hstay : Kernel.StaysBelow top k size)
    (hbelow : PayloadsBelow top bs) (htop : top ≤ 2 ^ 32)
    (h : Kernel.malloc fuel size k = some (ptr, k')) :
    ∃ bs', Layout k' (grant live ptr size.toNat) bs' ∧ PayloadsBelow top bs' ∧
      ChangedOnly k.mem k'.mem base top := by
  rcases malloc_cases h with ⟨rfl, rfl⟩ | ⟨r, hzero, hfind, hnull, rfl, rfl⟩
  · exact ⟨bs, by rwa [grant, if_pos rfl], hbelow, .refl _ _ _⟩
  · obtain ⟨hr, hptr, -, bs', hl', hpay⟩ := hl.take hzero hsafe hfind hnull
    have hroom := hstay hzero fuel r hfind hnull
    have hne : r + headerLen ≠ 0 := ne_zero_of_pos (by rw [hptr, recordSize]; omega)
    refine ⟨bs', by rwa [grant, if_neg hne], fun x hx => ?_, ?_⟩
    · rcases hpay x hx with hx | ⟨haddr, hlen⟩
      · exact hbelow x hx
      · rwa [haddr, hlen]
    · refine takeBlock_changedOnly htop ⟨hr, by omega⟩ fun hsplit => ?_
      rw [taken, if_pos hsplit] at hroom
      have hq : (r + headerLen + roundUp size).toNat =
          r.toNat + recordSize + (roundUp size).toNat :=
        toNat_split (by rw [recordSize] at *; omega)
      exact ⟨by omega, by omega⟩

/-- A call of `free`. -/
theorem Layout.free_confined (hl : Layout k live bs) {ptr : Addr} {n : ℕ}
    (hlive : live ptr.toNat = some n) (hbelow : PayloadsBelow top bs)
    (hlo : base + recordSize ≤ top) (htop : top ≤ 2 ^ 32) :
    ∃ bs', Layout (Kernel.free ptr k) (Function.update live ptr.toNat none) bs' ∧
      PayloadsBelow top bs' ∧ ChangedOnly k.mem (Kernel.free ptr k).mem base top := by
  obtain ⟨bs', hl', hpay⟩ := hl.release hlive
  refine ⟨bs', hl', fun x hx => hbelow x (hpay x hx), ?_⟩
  have hheaders := hl.headersBelow hlo hbelow
  obtain ⟨pre, b, post, rfl, -, haddr, -⟩ := hl.block hlive
  have hne : ptr ≠ 0 := ne_zero_of_pos (by rw [haddr, base]; omega)
  rw [free_mem hne]
  exact free_changedOnly hl.shape (entry_toNat haddr) hheaders htop

/-- A step of `malloc` and `free` that splits no block in the middle and stays below `top`
keeps the layout below `top`, and changes the arena below `top` only. -/
theorem HeapStep.confined {s t : Session} {op : HeapOp} (h : HeapStep s op t)
    (hl : Layout s.heap s.live bs) (hop : op.MallocFree) (hsafe : ¬ op.SplitsMiddle s)
    (hstay : op.StaysBelow top s) (hbelow : PayloadsBelow top bs)
    (hlo : base + recordSize ≤ top) (htop : top ≤ 2 ^ 32) :
    ∃ bs', Layout t.heap t.live bs' ∧ PayloadsBelow top bs' ∧
      ChangedOnly s.heap.mem t.heap.mem base top := by
  cases h with
  | malloc hcall => exact hl.malloc_confined hsafe hstay hbelow htop hcall
  | @free ptr hlive =>
      rcases hlive with rfl | ⟨n, hn⟩
      · have hsame : Function.update s.live 0 none = s.live :=
          Function.update_eq_self_iff.mpr hl.live_zero.symm
        rw [free_null]
        refine ⟨bs, ?_, hbelow, .refl _ _ _⟩
        change Layout s.heap (Function.update s.live 0 none) bs
        rwa [hsame]
      · exact hl.free_confined hn hbelow hlo htop
  | calloc _ => exact hop.elim
  | realloc _ _ => exact hop.elim
  | @store ptr i value n hlive hi =>
      obtain ⟨-, -, hptr, -, -, hmem⟩ := hl.entry hlive
      have hend := hbelow _ hmem
      dsimp only at hend
      have hstore := ChangedOnly.store8 s.heap.mem (ptr + BitVec.ofNat 32 i) value
      rw [toNat_add_lt (a := ptr) (n := i + 1) (k := i) (by omega) (by omega)] at hstore
      refine ⟨bs, hl.write_live hlive hi (hstore.mono (by omega) (by omega)), hbelow, ?_⟩
      exact hstore.mono (by omega) (by omega)

end Layout

end B2OS.Kernel

namespace B2OS.Heap

open ByteMemory BlockChain B2OS.Kernel

/-- The end of the heap's region. -/
def heapHi : ℕ := heapLo + heapLen

theorem heapHi_le : heapHi ≤ 2 ^ 32 := by decide

/-! ### The stores of `heap_alloc` and `heap_free` -/

section Stores

variable {m m' : Memory} {p n : Addr} {lo hi : ℕ} (hhi : hi ≤ 2 ^ 32)
include hhi

theorem setBlock_changedOnly (h : ChangedOnly m m' lo hi) (hp : Inside p lo hi) (r : Record) :
    ChangedOnly m (setBlock m' p r) lo hi :=
  (((h.setWord0 hp hhi r.word0).setWord1 hp hhi r.word1).setWord2 hp hhi r.word2).setFlag hp
    hhi r.flag

theorem mergeStores_changedOnly (l : BitVec 32) (hp : Inside p lo hi)
    (hn : n ≠ 0 → Inside n lo hi) : ChangedOnly m (mergeStores m p n l) lo hi := by
  have hlen := (ChangedOnly.refl m lo hi).setWord2 hp hhi l
  rw [mergeStores]
  split_ifs with hne
  · exact (hlen.setWord1 (hn hne) hhi p).setWord0 hp hhi n
  · exact hlen.setWord0 hp hhi n

theorem cutBlock_changedOnly {size : BitVec 32} (h : ChangedOnly m m' lo hi)
    (hp : Inside p lo hi) (hq : Inside (headerToPtr p + size) lo hi) :
    ChangedOnly m (cutBlock m' p size) lo hi :=
  (((setBlock_changedOnly hhi h hq _).setWord0 hp hhi _).setWord2 hp hhi _).setFlag hp hhi _

end Stores

section Tiling

variable {m : Memory} {pre post : List (Block Request)} {a b : Block Request} {p : Addr}

theorem mergeNext_changedOnly (ht : Tiling bHeader heapArena m (pre ++ b :: post))
    (hp : p.toNat = heapLo + span recordSize pre) :
    ChangedOnly m (mergeNext m p) heapLo heapHi := by
  obtain ⟨hsame, -⟩ | ⟨c, post, rfl, -, hq, hmerge⟩ :=
    mergeNext_cases ht.forward hp
  · rw [hsame]
    exact .refl m heapLo heapHi
  · have htc : Tiling bHeader heapArena m ((pre ++ [b]) ++ c :: post) := by simpa using ht
    have hq' : (next m p).toNat = heapLo + span recordSize (pre ++ [b]) := by
      rw [hq, hp, span_append, span_cons, span_nil]
      omega
    obtain ⟨-, hnext, -, -⟩ := header htc hq'
    rw [hmerge]
    exact mergeStores_changedOnly heapHi_le _ (ht.headersBelow.inside hp)
      (htc.headersBelow.link_inside hq' hnext)

/-- The block that `heap_free` goes on with is a header of the chain. -/
theorem mergePrev_changedOnly (ht : Tiling bHeader heapArena m (pre ++ b :: post))
    (hp : p.toNat = heapLo + span recordSize pre) :
    ChangedOnly m (mergePrev m p).1 heapLo heapHi ∧
      Inside (mergePrev m p).2 heapLo heapHi := by
  rcases mergePrev_cases ht hp with ⟨hsame, -⟩ | ⟨pre, a, rfl, -, hprev, -, hmerge⟩
  · rw [hsame]
    exact ⟨.refl m heapLo heapHi, ht.headersBelow.inside hp⟩
  · have hta : Tiling bHeader heapArena m (pre ++ a :: b :: post) := by simpa using ht
    obtain ⟨-, hnext, -, -⟩ := header ht hp
    rw [hmerge]
    have hinside : Inside (prev m p) heapLo heapHi := hta.headersBelow.inside hprev
    exact ⟨mergeStores_changedOnly heapHi_le _ hinside (ht.headersBelow.link_inside hp hnext),
      hinside⟩

/-- `heap_free` stores into headers of the chain only. -/
theorem heapFree_changedOnly {ptr : Addr} (ht : Tiling bHeader heapArena m (pre ++ b :: post))
    (hptr : ptr ≠ 0) (hp : (ptr - blockSize).toNat = heapLo + span recordSize pre) :
    ChangedOnly m (heapFree ptr m) heapLo heapHi := by
  obtain ⟨n, post', ht', -, -⟩ := mergeNext_tiling ht hp
  obtain ⟨hprev, hinside⟩ := mergePrev_changedOnly ht' hp
  rw [heapFree, if_neg hptr]
  exact ((mergeNext_changedOnly ht hp).trans hprev).setFlag hinside heapHi_le true

/-- The move of the last block stays in the region. -/
theorem moveBlock_changedOnly (ht : Tiling bHeader heapArena m (pre ++ [a, b]))
    (hp : p.toNat = heapLo + span recordSize (pre ++ [a])) {pad : BitVec 32}
    (hroom : pad.toNat ≤ b.len) : ChangedOnly m (moveBlock m p pad) heapLo heapHi := by
  obtain ⟨hprev, hpq, hmoved, htop⟩ := moveBlock_places ht hp hroom
  have hhi : heapHi ≤ 2 ^ 32 := heapHi_le
  have hblock : blockSize.toNat = recordSize := rfl
  have hinside : Inside (prev m p) heapLo heapHi := ht.headersBelow.inside hprev
  have hminside : Inside (p + pad) heapLo heapHi := ⟨by omega, by rw [heapHi]; omega⟩
  have hwipe : ChangedOnly m (memset m p 0 blockSize) heapLo heapHi := by
    refine (memset_changedOnly m 0 ?_).mono (by omega) ?_
    · rw [heapHi] at hhi
      omega
    · rw [heapHi]
      omega
  rw [moveBlock_stores ht hp hroom]
  exact (((setBlock_changedOnly hhi hwipe hminside _).setWord2 hminside hhi _).setWord2 hinside
    hhi _).setWord0 hinside hhi _

end Tiling

/-! ### Steps in the region -/

section Layout

variable {m m' : Memory} {live : ℕ → Option Request} {bs : List (Block Request)}

/-- A call of `heap_alloc` that fits stays in the region. -/
theorem Layout.alloc_changedOnly (hl : Layout m live bs) {size align : BitVec 32} {fuel : ℕ}
    {ptr : Addr} (hfit : FitsLast m size align)
    (h : heapAlloc fuel size align m = some (some (ptr, m'))) :
    ChangedOnly m m' heapLo heapHi := by
  obtain ⟨blk, hfind, htake⟩ := heapAlloc_found h
  obtain ⟨pre, b, rfl, -, hp, hfirst, hroom, htop⟩ := hl.found hfit hfind
  rw [takeBlock] at htake
  obtain ⟨rfl, rfl⟩ := Prod.mk.inj htake
  have hhi : heapHi ≤ 2 ^ 32 := heapHi_le
  have hblock : blockSize.toNat = recordSize := rfl
  -- the places of the header and of the new one behind the payload
  have hat : (blk + szPad align blk).toNat = blk.toNat + (szPad align blk).toNat := by
    rw [BitVec.toNat_add]
    rw [heapHi] at hhi
    simp only [recordSize] at *
    omega
  have hnew : (headerToPtr (blk + szPad align blk) + size).toNat =
      blk.toNat + (szPad align blk).toNat + recordSize + size.toNat := by
    rw [headerToPtr, BitVec.toNat_add, BitVec.toNat_add, hat, hblock]
    rw [heapHi] at hhi
    simp only [recordSize] at *
    omega
  have hinside : Inside (blk + szPad align blk) heapLo heapHi :=
    ⟨by omega, by rw [heapHi]; omega⟩
  have hninside : Inside (headerToPtr (blk + szPad align blk) + size) heapLo heapHi :=
    ⟨by omega, by rw [heapHi]; omega⟩
  refine cutBlock_changedOnly hhi ?_ hinside hninside
  by_cases hpad : szPad align blk = 0
  · rw [if_neg (not_not.mpr hpad)]
    exact .refl m heapLo heapHi
  · rw [if_pos hpad]
    rcases List.eq_nil_or_concat' pre with rfl | ⟨pre, a, rfl⟩
    · exact absurd rfl (hfirst hpad)
    · have hta : Tiling bHeader heapArena m (pre ++ [a, b]) := by simpa using hl.tiling
      exact moveBlock_changedOnly hta hp (by omega)

/-- A call of `heap_free` stays in the region. -/
theorem Layout.free_changedOnly (hl : Layout m live bs) {ptr : Addr} {t : Request}
    (hlive : live ptr.toNat = some t) : ChangedOnly m (heapFree ptr m) heapLo heapHi := by
  obtain ⟨pre, b, post, rfl, -, haddr, -⟩ := Owned.block (A := heapArena) hl.owned hlive
  have hne : ptr ≠ 0 := by
    rintro rfl
    rw [show (0 : Addr).toNat = 0 from rfl, hl.live_zero] at hlive
    cases hlive
  exact heapFree_changedOnly hl.tiling hne (entry_toNat haddr)

/-- A step that fits changes bytes of the region only. -/
theorem HeapStep.confined {s t : Session} {op : HeapOp} (h : HeapStep s op t)
    (hl : Layout s.mem s.live bs) (hfit : op.Fits s) :
    ChangedOnly s.mem t.mem heapLo heapHi := by
  cases h with
  | alloc hcall => exact hl.alloc_changedOnly hfit hcall
  | @free ptr hlive =>
      rcases hlive with rfl | ⟨t, ht⟩
      · rw [heapFree, if_pos rfl]
        exact .refl _ _ _
      · exact hl.free_changedOnly ht
  | @store ptr i value t hlive hi =>
      obtain ⟨-, -, hptr, htop, -, -, -⟩ := hl.entry hlive
      have hhi : heapHi ≤ 2 ^ 32 := heapHi_le
      rw [heapHi] at *
      have hstore := ChangedOnly.store8 s.mem (ptr + BitVec.ofNat 32 i) value
      rw [toNat_add_lt (a := ptr) (n := i + 1) (k := i) (by omega) (by omega)] at hstore
      exact hstore.mono (by omega) (by omega)

/-- Stores below the region keep the layout. -/
theorem Layout.frame (hl : Layout m live bs) {lo hi : ℕ} (hch : ChangedOnly m m' lo hi)
    (hhi : hi ≤ heapLo) : Layout m' live bs where
  tiling := hl.tiling.frame hl.tiling.headersBelow heapHi_le hch (.inr hhi)
  owned := hl.owned
  sized := hl.sized
  coalesced := hl.coalesced

end Layout

/-- `heap_init` clears the region and writes the first header into it. -/
theorem heapInit_changedOnly (m : Memory) : ChangedOnly m (heapInit m) heapLo heapHi := by
  have hclear : ChangedOnly m (memset m HEAP_START 0 HEAP_SIZE) heapLo heapHi :=
    memset_changedOnly m 0 heapHi_le
  exact setBlock_changedOnly heapHi_le hclear ⟨by decide, by decide⟩ _

end B2OS.Heap
