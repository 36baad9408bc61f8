import B2OS.Lib.BlockArena
import B2OS.Lib.Run
import B2OS.Kernel.Heap
import B2OS.Kernel.MallocLayout

/-!
# What `heap_alloc` and `heap_free` Do to the Chain of Blocks

The chain of `Src/memory/heap.c` tiles the heap region. `heap_free` keeps it tiled, and so
does `heap_alloc` on the last block of the chain, when the padding, the payload and the new
header fit into it. Padding needs a block before the one that moves.

## Main results

* `heapFree_tiling`: `heap_free` marks a block and joins it with its free neighbours.
* `moveBlock_tiling`, `cutBlock_tiling`: the two steps of `heap_alloc` on the last block.
* `szPad_spec`: the padding leads to the next multiple of the alignment.
-/

namespace B2OS.Heap

open ByteMemory BlockChain B2OS.Kernel

/-- `struct Block` as a format of block headers. -/
def bHeader : HeaderFormat where
  hdr r := ⟨r.word1.toNat, r.word0.toNat, r.word2.toNat, !r.flag⟩
  setPrev := setPrev
  setNext := setNext
  setLen := setSz
  setUsed m p b := setFree m p !b
  setPrev_self m p v hp := by rw [setPrev, record_setWord1 hp]
  setNext_self m p v hp := by rw [setNext, record_setWord0 hp]
  setLen_self m p v hp := by rw [setSz, record_setWord2 hp]
  setUsed_self m p b hp := by rw [setFree, record_setFlag hp, Bool.not_not]
  setPrev_apart _ _ v _ hp hq h := record_setWord1_of_apart hp hq h v
  setNext_apart _ _ v _ hp hq h := record_setWord0_of_apart hp hq h v
  setLen_apart _ _ v _ hp hq h := record_setWord2_of_apart hp hq h v
  setUsed_apart _ _ b _ hp hq h := record_setFlag_of_apart hp hq h !b

/-- The number of the heap's first byte. -/
def heapLo : ℕ := 0xA00000

/-- The number of bytes of the heap. -/
def heapLen : ℕ := 0x3200000

/-- The region of the heap. -/
def heapArena : Arena where
  lo := heapLo
  size := heapLen
  lo_pos := by decide
  hi_le := by decide

/-- What a caller of `heap_alloc` asked for. -/
structure Request where
  size : ℕ
  align : ℕ

/-! ### What the stores leave of the other fields -/

section Stores

variable {m : Memory} {p q : Addr} (hp : Fits p) (hq : Fits q) (hpq : Apart q.toNat p.toNat)
include hp

theorem setBlock_self (r : Record) : record (setBlock m p r) p = r := by
  rw [setBlock, setFree, setSz, setPrev, setNext, record_setFlag hp, record_setWord2 hp,
    record_setWord1 hp, record_setWord0 hp]

theorem next_setSz (v : BitVec 32) : next (setSz m p v) p = next m p := by
  rw [next, setSz, record_setWord2 hp, next]

include hq hpq

theorem setBlock_of_apart (r : Record) : record (setBlock m p r) q = record m q := by
  rw [setBlock, setFree, setSz, setPrev, setNext, record_setFlag_of_apart hp hq hpq,
    record_setWord2_of_apart hp hq hpq, record_setWord1_of_apart hp hq hpq,
    record_setWord0_of_apart hp hq hpq]

theorem next_setSz_of_apart (v : BitVec 32) : next (setSz m p v) q = next m q := by
  rw [next, setSz, record_setWord2_of_apart hp hq hpq, next]

theorem prev_setSz_of_apart (v : BitVec 32) : prev (setSz m p v) q = prev m q := by
  rw [prev, setSz, record_setWord2_of_apart hp hq hpq, prev]

theorem next_setPrev_of_apart (v : Addr) : next (setPrev m p v) q = next m q := by
  rw [next, setPrev, record_setWord1_of_apart hp hq hpq, next]

theorem prev_setNext_of_apart (v : Addr) : prev (setNext m p v) q = prev m q := by
  rw [prev, setNext, record_setWord0_of_apart hp hq hpq, prev]

theorem prev_setPrev_of_apart (v : Addr) : prev (setPrev m p v) q = prev m q := by
  rw [prev, setPrev, record_setWord1_of_apart hp hq hpq, prev]

end Stores

theorem edit_setFree (m : Memory) {p : Addr} (hp : Fits p) :
    Edit bHeader m (setFree m p true) p fun x => { x with used := false } :=
  bHeader.edit_setUsed m hp false

/-! ### Merging -/

section Tiling

variable {m : Memory} {pre post : List (Block Request)} {a b : Block Request} {p : Addr}

/-- The header that a memory shows at the place of a block. -/
theorem header (ht : Tiling bHeader heapArena m (pre ++ b :: post))
    (hp : p.toNat = heapLo + span recordSize pre) :
    (prev m p).toNat = lastAddr recordSize 0 heapLo pre ∧
    (next m p).toNat = link (p.toNat + recordSize + b.len) 0 post ∧
    (sz m p).toNat = b.len ∧ isFree m p = !b.tag.isSome := by
  have hb := ht.header hp
  have hused : (!isFree m p) = b.tag.isSome := congrArg Hdr.used hb
  exact ⟨congrArg Hdr.prev hb, congrArg Hdr.next hb, congrArg Hdr.len hb,
    by rw [← hused, Bool.not_not]⟩

/-- What the header of a block shows, when the links back may be stale. -/
theorem row_header (hf : Forward bHeader heapArena m (pre ++ b :: post))
    (hp : p.toNat = heapLo + span recordSize pre) :
    (next m p).toNat = link (p.toNat + recordSize + b.len) 0 post ∧
    (sz m p).toNat = b.len ∧ isFree m p = !b.tag.isSome := by
  have hb := hf.header hp
  have hused : (!isFree m p) = b.tag.isSome := congrArg Hdr.used hb
  exact ⟨congrArg Hdr.next hb, congrArg Hdr.len hb, by rw [← hused, Bool.not_not]⟩

/-- The stores of a merge into the block at `p`, whose new successor is `n`. -/
theorem merge_edit {n : Addr} (l : BitVec 32) (hp : Fits p) :
    Edit bHeader m (setNext (setSz m p l) p n) p
      fun x => { x with len := l.toNat, next := n.toNat } :=
  (bHeader.edit_setLen m hp l).trans (bHeader.edit_setNext _ hp n)

theorem merge_edit2 {n : Addr} (l : BitVec 32) (hp : Fits p) (hn : Fits n)
    (hpn : Apart p.toNat n.toNat) :
    Edit2 bHeader m (setNext (setPrev (setSz m p l) n p) p n) p n
      (fun x => { x with len := l.toNat, next := n.toNat })
      fun x => { x with prev := p.toNat } :=
  (((Edit2.refl bHeader m p n).editFst hn hpn (bHeader.edit_setLen m hp l)).editSnd hp hpn
    (bHeader.edit_setPrev _ hn p)).editFst hn hpn (bHeader.edit_setNext _ hp n)

/-- A block swallows the block behind it. -/
theorem absorb {q n : Addr} {l : BitVec 32} {m' : Memory}
    (ht : Tiling bHeader heapArena m (pre ++ a :: b :: post))
    (hp : p.toNat = heapLo + span recordSize pre)
    (hq : q.toNat = p.toNat + recordSize + a.len)
    (hlen : l.toNat = a.len + (recordSize + b.len)) (hn : n = next m q)
    (hlast : n = 0 → m' = setNext (setSz m p l) p n)
    (hmid : n ≠ 0 → Fits n → Apart p.toNat n.toNat →
      m' = setNext (setPrev (setSz m p l) n p) p n) :
    Tiling bHeader heapArena m'
      (pre ++ { a with len := a.len + (recordSize + b.len) } :: post) := by
  obtain ⟨-, hfits⟩ := ht.bounds hp
  refine ht.absorb (n := n) (f := fun x => { x with len := l.toNat, next := n.toNat }) hp hq
    (by rw [hn]; rfl) (fun hzero => ?_) (fun hne hfitsn hapart => ?_)
    (fun x => by rw [hlen]) fun x => rfl
  · rw [hlast hzero]
    exact merge_edit l hfits
  · rw [hmid hne hfitsn hapart]
    exact merge_edit2 l hfits hfitsn hapart

/-- The stores of a merge into the block at `p`, whose new successor is `n`. -/
def mergeStores (m : Memory) (p n : Addr) (l : BitVec 32) : Memory :=
  if n ≠ 0 then setNext (setPrev (setSz m p l) n p) p n else setNext (setSz m p l) p n

/-- The first merge on a block that is followed by a free one. -/
theorem mergeNext_eq {q n : Addr} (hq : q = next m p) (hn : n = next m q)
    (hcond : q ≠ 0 ∧ isFree m q) (hp : Fits p) (hqfits : Fits q)
    (hqp : Apart q.toNat p.toNat)
    (hmid : n ≠ 0 → Fits n ∧ Apart p.toNat n.toNat ∧ Apart q.toNat n.toNat) :
    mergeNext m p = mergeStores m p n (sz m p + (blockSize + sz m q)) := by
  rw [mergeNext, mergeStores, ← hq, if_pos hcond]
  simp only [next_setSz hp, ← hq, next_setSz_of_apart hp hqfits hqp, ← hn]
  split_ifs with hne
  · obtain ⟨hnfits, hpn, hqn⟩ := hmid hne
    simp only [next_setPrev_of_apart hnfits hp hpn, next_setSz hp, ← hq,
      next_setPrev_of_apart hnfits hqfits hqn, next_setSz_of_apart hp hqfits hqp, ← hn]
  · simp only [next_setSz hp, ← hq, next_setSz_of_apart hp hqfits hqp, ← hn]

/-- The first merge of `heap_free` does nothing, or the block swallows the free one behind
it. -/
theorem mergeNext_cases (hf : Forward bHeader heapArena m (pre ++ b :: post))
    (hp : p.toNat = heapLo + span recordSize pre) :
    (mergeNext m p = m ∧ ∀ c ∈ post.head?, c.tag.isSome) ∨
      ∃ c post', post = c :: post' ∧ c.tag = none ∧
        (next m p).toNat = p.toNat + recordSize + b.len ∧
        mergeNext m p = mergeStores m p (next m (next m p))
          (sz m p + (blockSize + sz m (next m p))) := by
  obtain ⟨hnext, -, -⟩ := row_header hf hp
  obtain ⟨-, hfits⟩ := hf.bounds hp
  cases post with
  | nil =>
      have hzero : next m p = 0 := BitVec.eq_of_toNat_eq (by rw [hnext]; rfl)
      refine .inl ⟨?_, by simp⟩
      rw [mergeNext, if_neg (by simp [hzero])]
  | cons c post =>
      have hfc : Forward bHeader heapArena m ((pre ++ [b]) ++ c :: post) := by simpa using hf
      have hq : (next m p).toNat = p.toNat + recordSize + b.len := hnext
      have hq' : (next m p).toNat = heapLo + span recordSize (pre ++ [b]) := by
        rw [hq, hp, span_append, span_cons, span_nil]
        omega
      obtain ⟨hcnext, -, hcfree⟩ := row_header hfc hq'
      obtain ⟨-, hcfits⟩ := hfc.bounds hq'
      by_cases hused : c.tag.isSome
      · refine .inl ⟨?_, by simpa using hused⟩
        rw [mergeNext, if_neg (by simp [hcfree, hused])]
      · have hctag : c.tag = none := by simpa using hused
        have hne : next m p ≠ 0 := ne_zero_of_pos (by rw [hq', heapLo]; omega)
        have hapart : Apart (next m p).toNat p.toNat := by
          rw [Apart]
          omega
        have hcond : next m p ≠ 0 ∧ isFree m (next m p) := ⟨hne, by simp [hcfree, hctag]⟩
        refine .inr ⟨c, post, rfl, hctag, hq, ?_⟩
        refine mergeNext_eq rfl rfl hcond hfits hcfits hapart fun hnz => ?_
        obtain ⟨hnat, hnfits⟩ := hfc.of_link hq' hcnext hnz
        exact ⟨hnfits, .inl (by omega), .inl (by omega)⟩

/-- The first merge of `heap_free` on the chain of blocks. -/
theorem mergeNext_tiling (ht : Tiling bHeader heapArena m (pre ++ b :: post))
    (hp : p.toNat = heapLo + span recordSize pre) :
    ∃ n post', Tiling bHeader heapArena (mergeNext m p) (pre ++ ⟨n, b.tag⟩ :: post') ∧
      (∀ x, payloads recordSize (x + recordSize + n) post' =
        payloads recordSize (x + recordSize + b.len) post) ∧
      (Coalesced post → Coalesced (⟨n, none⟩ :: post')) := by
  obtain ⟨hsame, hhead⟩ | ⟨c, post, rfl, hctag, hq, hmerge⟩ :=
    mergeNext_cases ht.forward hp
  · refine ⟨b.len, post, by rwa [hsame], fun _ => rfl, fun hco => ?_⟩
    cases post with
    | nil => trivial
    | cons c post => exact hco.cons_used (hhead c rfl) _
  · have htc : Tiling bHeader heapArena m ((pre ++ [b]) ++ c :: post) := by simpa using ht
    have hq' : (next m p).toNat = heapLo + span recordSize (pre ++ [b]) := by
      rw [hq, hp, span_append, span_cons, span_nil]
      omega
    obtain ⟨-, -, hlen, -⟩ := header ht hp
    obtain ⟨-, -, hclen, -⟩ := header htc hq'
    obtain ⟨hctop, -⟩ := htc.bounds hq'
    refine ⟨b.len + (recordSize + c.len), post, ?_, fun x => ?_,
      fun hco => hco.replace_head hctag _⟩
    · refine absorb ht hp hq (l := sz m p + (blockSize + sz m (next m p))) ?_ rfl
        (fun hzero => ?_) fun hnz _ _ => ?_
      · refine toNat_merged hlen hclen ?_
        simp only [heapArena, heapLo, heapLen] at hctop
        omega
      · rw [hmerge, mergeStores, if_neg (not_not.mpr hzero)]
      · rw [hmerge, mergeStores, if_pos hnz]
    · rw [payloads_free _ c _ hctag]
      congr 1
      omega

/-- The second merge on a block that follows a free one. -/
theorem mergePrev_eq {q n : Addr} (hq : q = prev m p) (hn : n = next m p)
    (hcond : q ≠ 0 ∧ isFree m q) (hp : Fits p) (hqfits : Fits q)
    (hpq : Apart p.toNat q.toNat)
    (hmid : n ≠ 0 → Fits n ∧ Apart p.toNat n.toNat) :
    mergePrev m p = (mergeStores m q n (sz m q + (blockSize + sz m p)), q) := by
  rw [mergePrev, mergeStores, ← hq, if_pos hcond]
  simp only [next_setSz_of_apart hqfits hp hpq, prev_setSz_of_apart hqfits hp hpq, ← hq, ← hn]
  split_ifs with hne
  · obtain ⟨hnfits, hpn⟩ := hmid hne
    simp only [next_setPrev_of_apart hnfits hp hpn, prev_setPrev_of_apart hnfits hp hpn,
      next_setSz_of_apart hqfits hp hpq, prev_setSz_of_apart hqfits hp hpq,
      prev_setNext_of_apart hqfits hp hpq, ← hq, ← hn]
  · simp only [next_setSz_of_apart hqfits hp hpq, prev_setSz_of_apart hqfits hp hpq,
      prev_setNext_of_apart hqfits hp hpq, ← hq, ← hn]

/-- The link back of the block at `p` may be stale, but not when it leads to a header that
looks free: then it leads to the block before. -/
def BackLinked (m : Memory) (pre : List (Block Request)) (p : Addr) : Prop :=
  prev m p ≠ 0 → isFree m (prev m p) = true →
    ∃ pre' a, pre = pre' ++ [a] ∧ (prev m p).toNat = heapLo + span recordSize pre'

/-- The second merge of `heap_free` does nothing, or the free block before swallows this
one. -/
theorem mergePrev_row (hf : Forward bHeader heapArena m (pre ++ b :: post))
    (hp : p.toNat = heapLo + span recordSize pre) (hback : BackLinked m pre p) :
    (mergePrev m p = (m, p) ∧ (prev m p = 0 ∨ isFree m (prev m p) = false)) ∨
      ∃ pre' a, pre = pre' ++ [a] ∧ a.tag = none ∧
        (prev m p).toNat = heapLo + span recordSize pre' ∧
        p.toNat = (prev m p).toNat + recordSize + a.len ∧
        mergePrev m p = (mergeStores m (prev m p) (next m p)
          (sz m (prev m p) + (blockSize + sz m p)), prev m p) := by
  obtain ⟨hnext, -, -⟩ := row_header hf hp
  obtain ⟨-, hfits⟩ := hf.bounds hp
  by_cases hcond : prev m p ≠ 0 ∧ isFree m (prev m p) = true
  · obtain ⟨hne, hfree⟩ := hcond
    obtain ⟨pre, a, rfl, hprev⟩ := hback hne hfree
    have hfa : Forward bHeader heapArena m (pre ++ a :: b :: post) := by simpa using hf
    obtain ⟨-, -, hafree⟩ := row_header hfa hprev
    obtain ⟨-, hafits⟩ := hfa.bounds hprev
    have hpq : p.toNat = (prev m p).toNat + recordSize + a.len := by
      rw [hprev, hp, span_append, span_cons, span_nil]
      omega
    have hapart : Apart p.toNat (prev m p).toNat := by
      rw [Apart]
      omega
    refine .inr ⟨pre, a, rfl, ?_, hprev, hpq, ?_⟩
    · rw [hfree] at hafree
      simpa using hafree.symm
    · refine mergePrev_eq rfl rfl ⟨hne, hfree⟩ hfits hafits hapart fun hnz => ?_
      obtain ⟨hnat, hnfits⟩ := hf.of_link hp hnext hnz
      exact ⟨hnfits, .inl (by omega)⟩
  · refine .inl ⟨by rw [mergePrev, if_neg hcond], ?_⟩
    rw [not_and_or, not_not, Bool.not_eq_true] at hcond
    exact hcond

/-- The links back of a tiling are right. -/
theorem backLinked (ht : Tiling bHeader heapArena m (pre ++ b :: post))
    (hp : p.toNat = heapLo + span recordSize pre) : BackLinked m pre p := by
  intro hne _
  obtain ⟨hprev, -, -, -⟩ := header ht hp
  rcases List.eq_nil_or_concat' pre with rfl | ⟨pre, a, rfl⟩
  · exact absurd (BitVec.eq_of_toNat_eq hprev) hne
  · rw [lastAddr_concat] at hprev
    exact ⟨pre, a, rfl, hprev⟩

/-- The second merge on a tiling: it does nothing behind a block in use. -/
theorem mergePrev_cases (ht : Tiling bHeader heapArena m (pre ++ b :: post))
    (hp : p.toNat = heapLo + span recordSize pre) :
    (mergePrev m p = (m, p) ∧ ∀ a ∈ pre.getLast?, a.tag.isSome) ∨
      ∃ pre' a, pre = pre' ++ [a] ∧ a.tag = none ∧
        (prev m p).toNat = heapLo + span recordSize pre' ∧
        p.toNat = (prev m p).toNat + recordSize + a.len ∧
        mergePrev m p = (mergeStores m (prev m p) (next m p)
          (sz m (prev m p) + (blockSize + sz m p)), prev m p) := by
  rcases mergePrev_row ht.forward hp (backLinked ht hp) with ⟨hsame, hstop⟩ | hmerge
  · refine .inl ⟨hsame, ?_⟩
    obtain ⟨hprev, -, -, -⟩ := header ht hp
    rcases List.eq_nil_or_concat' pre with rfl | ⟨pre, a, rfl⟩
    · simp
    · have hta : Tiling bHeader heapArena m (pre ++ a :: b :: post) := by simpa using ht
      rw [lastAddr_concat] at hprev
      obtain ⟨-, -, -, hafree⟩ := header hta hprev
      have hne : prev m p ≠ 0 := ne_zero_of_pos (by rw [hprev, heapLo]; omega)
      have hused := hstop.resolve_left hne
      rw [hafree] at hused
      simpa using hused
  · exact .inr hmerge

/-- The second merge of `heap_free`, and the mark: the block is free, alone or as a part of
the block before it. -/
theorem mergePrev_tiling (ht : Tiling bHeader heapArena m (pre ++ b :: post))
    (hp : p.toNat = heapLo + span recordSize pre) :
    ∃ bs, Tiling bHeader heapArena (setFree (mergePrev m p).1 (mergePrev m p).2 true) bs ∧
      payloads recordSize heapLo bs = payloads recordSize heapLo pre ++
        payloads recordSize (heapLo + span recordSize pre + recordSize + b.len) post ∧
      (Coalesced pre → Coalesced (⟨b.len, none⟩ :: post) → Coalesced bs) := by
  obtain ⟨-, -, hlen, -⟩ := header ht hp
  obtain ⟨htop, hfits⟩ := ht.bounds hp
  rcases mergePrev_cases ht hp with ⟨hsame, hlast⟩ | ⟨pre, a, rfl, hatag, hprev, hpq, hmerge⟩
  · rw [hsame]
    refine ⟨_, ht.setTag hp none (edit_setFree m hfits), ?_, fun hpre hco => ?_⟩
    · rw [payloads_append, payloads_free _ _ _ rfl]
    · rcases List.eq_nil_or_concat' pre with rfl | ⟨pre, a, rfl⟩
      · exact hco
      · rw [← List.append_cons]
        exact hpre.append_used (hlast a (by simp)) hco
  · have hta : Tiling bHeader heapArena m (pre ++ a :: b :: post) := by simpa using ht
    obtain ⟨-, -, halen, -⟩ := header hta hprev
    obtain ⟨-, hafits⟩ := hta.bounds hprev
    have habs : Tiling bHeader heapArena (mergePrev m p).1
        (pre ++ { a with len := a.len + (recordSize + b.len) } :: post) := by
      refine absorb hta hprev hpq
        (l := sz m (prev m p) + (blockSize + sz m p)) ?_ rfl (fun hzero => ?_)
        fun hnz _ _ => ?_
      · refine toNat_merged halen hlen ?_
        simp only [heapArena, heapLo, heapLen] at htop
        omega
      · rw [hmerge, mergeStores, if_neg (not_not.mpr hzero)]
      · rw [hmerge, mergeStores, if_pos hnz]
    refine ⟨_, habs.setTag hprev none ?_, ?_, fun hpre hco => ?_⟩
    · rw [hmerge]
      exact edit_setFree _ hafits
    · rw [payloads_append, payloads_free _ _ _ rfl, payloads_append,
        payloads_free _ _ _ hatag, payloads, List.append_nil, span_append, span_cons,
        span_nil]
      congr 2
      simp only
      omega
    · exact hpre.replace_last hatag (hco.replace_head rfl _)

/-- What `heap_free` leaves: the block is free, the other payloads are as they were. -/
theorem heapFree_tiling {ptr : Addr} (ht : Tiling bHeader heapArena m (pre ++ b :: post))
    (hptr : ptr ≠ 0) (hp : (ptr - blockSize).toNat = heapLo + span recordSize pre) :
    ∃ bs, Tiling bHeader heapArena (heapFree ptr m) bs ∧
      payloads recordSize heapLo bs = payloads recordSize heapLo pre ++
        payloads recordSize (heapLo + span recordSize pre + recordSize + b.len) post ∧
      (Coalesced (pre ++ b :: post) → Coalesced bs) := by
  obtain ⟨n, post', ht', hpay', hco'⟩ := mergeNext_tiling ht hp
  obtain ⟨bs, htbs, hpay, hco⟩ := mergePrev_tiling ht' hp
  rw [heapFree, if_neg hptr]
  refine ⟨bs, htbs, ?_, fun hall => ?_⟩
  · rw [hpay, hpay']
  · exact hco hall.of_append_left (hco' hall.of_append_right.tail)

/-! ### Taking the last block -/

/-- Writing a whole header. -/
theorem edit_setBlock (m : Memory) (hp : Fits p) (r : Record) :
    Edit bHeader m (setBlock m p r) p fun _ => bHeader.hdr r :=
  .of_record (by rw [setBlock_self hp]) fun q hq hqp => setBlock_of_apart hp hq hqp r

/-- The stores that cut `size` bytes off the front of a block. -/
theorem cutBlock_edit {size : BitVec 32} (hp : Fits p) (hq : Fits (headerToPtr p + size))
    (hapart : Apart p.toNat (headerToPtr p + size).toNat) :
    Edit2 bHeader m (cutBlock m p size) p (headerToPtr p + size)
      (fun x => ⟨x.prev, (headerToPtr p + size).toNat, size.toNat, true⟩)
      fun _ => ⟨p.toNat, (next m p).toNat, (sz m p - size - blockSize).toNat, false⟩ :=
  ((((Edit2.refl bHeader m p (headerToPtr p + size)).editSnd hp hapart
    (edit_setBlock m hq ⟨next m p, p, sz m p - size - blockSize, true⟩)).editFst hq
    hapart (bHeader.edit_setNext _ hp (headerToPtr p + size))).editFst hq hapart
    (bHeader.edit_setLen _ hp size)).editFst hq hapart (bHeader.edit_setUsed _ hp true)

/-- Where the new header goes, and what is left of the block for it. -/
theorem cutBlock_places (hf : Forward bHeader heapArena m (pre ++ b :: post))
    (hp : p.toNat = heapLo + span recordSize pre) {size : BitVec 32}
    (hroom : size.toNat + recordSize ≤ b.len) :
    (headerToPtr p + size).toNat = p.toNat + recordSize + size.toNat ∧
      Fits (headerToPtr p + size) ∧
      (sz m p - size - blockSize).toNat = b.len - size.toNat - recordSize := by
  obtain ⟨-, hlen, -⟩ := row_header hf hp
  obtain ⟨htop, -⟩ := hf.bounds hp
  have hblock : blockSize.toNat = 16 := rfl
  have hend : p.toNat + recordSize + b.len ≤ heapLo + heapLen := by
    simp only [heapArena] at htop
    omega
  have hq : (headerToPtr p + size).toNat = p.toNat + recordSize + size.toNat := by
    rw [headerToPtr, BitVec.toNat_add, BitVec.toNat_add, hblock]
    simp only [heapLo, heapLen, recordSize] at *
    omega
  refine ⟨hq, ?_, ?_⟩
  · simp only [Fits, heapLo, heapLen] at *
    omega
  · have hp32 := (sz m p).isLt
    rw [BitVec.toNat_sub, BitVec.toNat_sub, hlen, hblock]
    rw [recordSize] at *
    omega

/-- `heap_alloc` cuts `size` bytes off the front of the last block. -/
theorem cutBlock_tiling (ht : Tiling bHeader heapArena m (pre ++ [b]))
    (hp : p.toNat = heapLo + span recordSize pre) {size : BitVec 32}
    (hroom : size.toNat + recordSize ≤ b.len) (t : Request) :
    Tiling bHeader heapArena (cutBlock m p size)
      (pre ++ [⟨size.toNat, some t⟩, ⟨b.len - size.toNat - recordSize, none⟩]) := by
  obtain ⟨-, hnext, -, -⟩ := header ht hp
  obtain ⟨-, hfits⟩ := ht.bounds hp
  obtain ⟨hq, hqfits, hrest⟩ := cutBlock_places ht.forward hp hroom
  have hedit := cutBlock_edit (m := m) hfits hqfits (.inl (by omega))
  refine ht.splitLast (some t) hp hq (by omega) hedit (fun x => rfl) fun x => ?_
  have hzero : (next m p).toNat = 0 := hnext
  rw [hrest, hzero]

/-- The stores of the move of the block at `p`, up to the link back of its successor, when its
predecessor is at `q`. -/
def moveStores (m : Memory) (p q : Addr) (pad : BitVec 32) : Memory :=
  setNext (setSz (setSz (setBlock (memset m p 0 blockSize) (p + pad) (record m p)) (p + pad)
    (sz m p - pad)) q (sz m q + pad)) q (p + pad)

/-- The stores of the move, for a block with a predecessor. -/
theorem moveBlock_eq {q n : Addr} {pad : BitVec 32} (hq : q = prev m p) (hn : n = next m p)
    (hne : q ≠ 0) (hqfits : Fits q) (hmfits : Fits (p + pad))
    (hapart : Apart q.toNat (p + pad).toNat)
    (hsame : record (memset m p 0 blockSize) q = record m q) :
    moveBlock m p pad = if n ≠ 0 then setPrev (moveStores m p q pad) n (p + pad)
      else moveStores m p q pad := by
  have hsz : sz (setBlock (memset m p 0 blockSize) (p + pad) (record m p)) (p + pad) =
      sz m p := by rw [sz, setBlock_self hmfits, sz]
  have hprev : prev (setSz (setBlock (memset m p 0 blockSize) (p + pad) (record m p))
      (p + pad) (sz m p - pad)) (p + pad) = q := by
    rw [prev, setSz, record_setWord2 hmfits, setBlock_self hmfits, hq, prev]
  have hszq : sz (setSz (setBlock (memset m p 0 blockSize) (p + pad) (record m p))
      (p + pad) (sz m p - pad)) q = sz m q := by
    rw [sz, setSz, record_setWord2_of_apart hmfits hqfits hapart,
      setBlock_of_apart hmfits hqfits hapart, hsame, sz]
  have hprev' : prev (setSz (setSz (setBlock (memset m p 0 blockSize) (p + pad)
      (record m p)) (p + pad) (sz m p - pad)) q (sz m q + pad)) (p + pad) = q := by
    rw [prev_setSz_of_apart hqfits hmfits hapart.symm, hprev]
  have hnext : next (setNext (setSz (setSz (setBlock (memset m p 0 blockSize) (p + pad)
      (record m p)) (p + pad) (sz m p - pad)) q (sz m q + pad)) q (p + pad)) (p + pad) =
      n := by
    rw [next, setNext, record_setWord0_of_apart hqfits hmfits hapart.symm, ← next,
      next_setSz_of_apart hqfits hmfits hapart.symm, next_setSz hmfits, next,
      setBlock_self hmfits, ← next, hn]
  rw [moveBlock]
  simp only [hsz, hprev, hszq, hprev', hnext, if_pos hne, moveStores]

/-- The stores of the move, as edits of the two headers. -/
theorem moveBlock_edit {q r : Addr} (r₀ : Record) (l n : BitVec 32) (hq : Fits q)
    (hr : Fits r) (hapart : Apart q.toNat r.toNat) :
    Edit2 bHeader m (setNext (setSz (setSz (setBlock m r r₀) r l) q n) q r) q r
      (fun x => { x with len := n.toNat, next := r.toNat })
      fun _ => { bHeader.hdr r₀ with len := l.toNat } :=
  (((Edit2.refl bHeader m q r).editSnd hq hapart ((edit_setBlock m hr r₀).trans
    (bHeader.edit_setLen _ hr l))).editFst hr hapart (bHeader.edit_setLen _ hq n)).editFst hr
    hapart (bHeader.edit_setNext _ hq r)

/-- The block before the last one, and the new place of the last one's header. -/
theorem moveBlock_places (ht : Tiling bHeader heapArena m (pre ++ [a, b]))
    (hp : p.toNat = heapLo + span recordSize (pre ++ [a])) {pad : BitVec 32}
    (hroom : pad.toNat ≤ b.len) :
    (prev m p).toNat = heapLo + span recordSize pre ∧
      p.toNat = (prev m p).toNat + recordSize + a.len ∧
      (p + pad).toNat = p.toNat + pad.toNat ∧
      p.toNat + pad.toNat + recordSize ≤ heapLo + heapLen := by
  have htb : Tiling bHeader heapArena m ((pre ++ [a]) ++ [b]) := by simpa using ht
  obtain ⟨hprev, -, -, -⟩ := header htb hp
  obtain ⟨htop, -⟩ := htb.bounds hp
  rw [lastAddr_concat] at hprev
  have hmoved : (p + pad).toNat = p.toNat + pad.toNat := by
    rw [BitVec.toNat_add]
    simp only [heapArena, heapLo, heapLen, recordSize, span_nil] at *
    omega
  refine ⟨hprev, ?_, hmoved, ?_⟩
  · rw [hprev, hp, span_append, span_cons, span_nil]
    omega
  · simp only [heapArena, span_nil] at htop
    omega

/-- The stores of the move on the last block of the chain. -/
theorem moveBlock_stores (ht : Tiling bHeader heapArena m (pre ++ [a, b]))
    (hp : p.toNat = heapLo + span recordSize (pre ++ [a])) {pad : BitVec 32}
    (hroom : pad.toNat ≤ b.len) :
    moveBlock m p pad = setNext (setSz (setSz (setBlock (memset m p 0 blockSize) (p + pad)
      (record m p)) (p + pad) (sz m p - pad)) (prev m p) (sz m (prev m p) + pad)) (prev m p)
      (p + pad) := by
  have htb : Tiling bHeader heapArena m ((pre ++ [a]) ++ [b]) := by simpa using ht
  obtain ⟨-, hnext, -, -⟩ := header htb hp
  obtain ⟨-, hfits⟩ := htb.bounds hp
  obtain ⟨hprev, hpq, hmoved, htop⟩ := moveBlock_places ht hp hroom
  obtain ⟨-, hafits⟩ := ht.bounds hprev
  have hmfits : Fits (p + pad) := by
    simp only [Fits, heapLo, heapLen] at *
    omega
  have hwipe : ChangedOnly m (memset m p 0 blockSize) p.toNat (p.toNat + 16) :=
    memset_changedOnly m 0 hfits
  rw [moveBlock_eq rfl rfl (ne_zero_of_pos (by rw [hprev, heapLo]; omega)) hafits hmfits
    (.inl (by omega)) (hwipe.record_eq hafits (.inl (by omega))),
    if_neg (not_not.mpr (BitVec.eq_of_toNat_eq hnext)), moveStores]

/-- `heap_alloc` moves the header of the last block, and gives the padding to the block
before it. -/
theorem moveBlock_tiling (ht : Tiling bHeader heapArena m (pre ++ [a, b]))
    (hp : p.toNat = heapLo + span recordSize (pre ++ [a])) {pad : BitVec 32}
    (hroom : pad.toNat ≤ b.len) :
    Tiling bHeader heapArena (moveBlock m p pad)
      (pre ++ [{ a with len := a.len + pad.toNat }, { b with len := b.len - pad.toNat }]) := by
  have htb : Tiling bHeader heapArena m ((pre ++ [a]) ++ [b]) := by simpa using ht
  obtain ⟨-, -, hlen, -⟩ := header htb hp
  obtain ⟨htop, hfits⟩ := htb.bounds hp
  obtain ⟨hprev, hpq, hmoved, hmtop⟩ := moveBlock_places ht hp hroom
  obtain ⟨-, -, halen, -⟩ := header ht hprev
  obtain ⟨-, hafits⟩ := ht.bounds hprev
  have hmfits : Fits (p + pad) := by
    simp only [Fits, heapLo, heapLen] at *
    omega
  have hwipe : ChangedOnly m (memset m p 0 blockSize) p.toNat (p.toNat + 16) :=
    memset_changedOnly m 0 hfits
  rw [moveBlock_stores ht hp hroom]
  have hedit := moveBlock_edit (m := memset m p 0 blockSize) (record m p) (sz m p - pad)
    (sz m (prev m p) + pad) hafits hmfits (.inl (by omega))
  have hasum : (sz m (prev m p) + pad).toNat = a.len + pad.toNat := by
    rw [BitVec.toNat_add, halen]
    simp only [heapArena, heapLo, heapLen, recordSize, span_nil] at *
    omega
  have hbdiff : (sz m p - pad).toNat = b.len - pad.toNat := by
    have hp32 := (sz m p).isLt
    rw [BitVec.toNat_sub, hlen]
    omega
  refine ht.padLast hprev hpq hroom ?_ ?_ fun x hx => ?_
  · rw [hedit.fst, HeaderFormat.at_changedOnly hwipe hafits (.inl (by omega)), hasum, hmoved]
  · rw [← hmoved, hedit.snd, hbdiff, bHeader.at_toNat]
  · rw [hedit.other x (by omega) (.inl (by omega)) (.inl (by omega)),
      HeaderFormat.at_changedOnly hwipe (by rw [Fits] at hfits; omega) (.inl (by omega))]

end Tiling

end B2OS.Heap
