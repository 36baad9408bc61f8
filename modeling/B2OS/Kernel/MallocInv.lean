import B2OS.Lib.BlockArena
import B2OS.Lib.Run
import B2OS.Kernel.Malloc

/-!
# What `malloc` and `free` Do to the List of Blocks

The list of blocks of `Src/memory.c` is a `Chain` of the header format `mHeader`. This
module follows the stores of `malloc` and `free` on a list that tiles the arena: `Shape`
is kept by a merge, by taking a whole block and by splitting the last block of the list.

`splitBlock` does not store the new header into the successor of the block that it
splits, so the last block is the only one it may split.

## Main results

* `free_shape`: `free` marks a block and joins it with its free neighbours.
* `Shape.split`, `Shape.setTaken`: the two ways `malloc` takes a block.
* `findFit_cases`, `findFit_returns`: what the search finds, and that it ends.
-/

namespace B2OS.Kernel

open ByteMemory BlockChain

/-- `struct m_header` as a format of block headers. -/
def mHeader : HeaderFormat where
  hdr r := ⟨r.word0.toNat, r.word1.toNat, r.word2.toNat, r.flag⟩
  setPrev := setPrev
  setNext := setNext
  setLen := setLength
  setUsed := setUsed
  setPrev_self m p v hp := by rw [setPrev, record_setWord0 hp]
  setNext_self m p v hp := by rw [setNext, record_setWord1 hp]
  setLen_self m p v hp := by rw [setLength, record_setWord2 hp]
  setUsed_self m p b hp := by rw [setUsed, record_setFlag hp]
  setPrev_apart _ _ v _ hp hq h := record_setWord0_of_apart hp hq h v
  setNext_apart _ _ v _ hp hq h := record_setWord1_of_apart hp hq h v
  setLen_apart _ _ v _ hp hq h := record_setWord2_of_apart hp hq h v
  setUsed_apart _ _ b _ hp hq h := record_setFlag_of_apart hp hq h b

/-! ### What the stores leave of the other fields -/

section Stores

variable {m : Memory} {p q : Addr} (hp : Fits p) (hq : Fits q) (hpq : Apart q.toNat p.toNat)
include hp

theorem next_setNext (v : Addr) : next (setNext m p v) p = v := by
  rw [next, setNext, record_setWord1 hp]

theorem next_setLength (v : BitVec 32) : next (setLength m p v) p = next m p := by
  rw [next, setLength, record_setWord2 hp, next]

include hq hpq

theorem next_setLength_of_apart (v : BitVec 32) :
    next (setLength m p v) q = next m q := by
  rw [next, setLength, record_setWord2_of_apart hp hq hpq, next]

theorem prev_setLength_of_apart (v : BitVec 32) :
    prev (setLength m p v) q = prev m q := by
  rw [prev, setLength, record_setWord2_of_apart hp hq hpq, prev]

theorem next_setNext_of_apart (v : Addr) : next (setNext m p v) q = next m q := by
  rw [next, setNext, record_setWord1_of_apart hp hq hpq, next]

theorem prev_setNext_of_apart (v : Addr) : prev (setNext m p v) q = prev m q := by
  rw [prev, setNext, record_setWord1_of_apart hp hq hpq, prev]

end Stores

/-- The length of a merged block, without overflow. -/
theorem toNat_merged {l l' : BitVec 32} {n n' : ℕ} (hl : l.toNat = n) (hl' : l'.toNat = n')
    (hsum : n + recordSize + n' < 2 ^ 32) :
    (l + (headerLen + l')).toNat = n + (recordSize + n') := by
  have hheader : headerLen.toNat = 16 := rfl
  rw [BitVec.toNat_add, BitVec.toNat_add, hl, hl', hheader]
  rw [recordSize] at *
  omega

/-- The number of the arena's first byte. -/
def base : ℕ := 0x100000

/-- The number of bytes of the arena. -/
def arena : ℕ := 0xA00000

/-- The longest request that does not wrap when it is rounded up. -/
def maxRequest : ℕ := 2 ^ 32 - 4

/-- A payload of whole words, at least as long as its request when that does not wrap. -/
def WellSized (b : Block ℕ) : Prop :=
  b.len % 4 = 0 ∧ ∀ n, b.tag = some n → n ≤ maxRequest → n ≤ b.len

theorem WellSized.free {n : ℕ} (h : n % 4 = 0) : WellSized ⟨n, none⟩ :=
  ⟨h, fun _ hn => by cases hn⟩

theorem span_mod_four : ∀ {bs : List (Block ℕ)}, (∀ b ∈ bs, WellSized b) →
    BlockChain.span recordSize bs % 4 = 0
  | [], _ => rfl
  | b :: bs, h => by
      obtain ⟨hb, hbs⟩ := List.forall_mem_cons.mp h
      have h4 := hb.1
      have h4' := span_mod_four hbs
      rw [span_cons, recordSize] at *
      omega

/-- The arena of `malloc`. -/
def kernelArena : Arena where
  lo := base
  size := arena
  lo_pos := by decide
  hi_le := by decide

/-- What the header of a block shows, when the links back may be stale. -/
theorem row_header {m : Memory} {pre post : List (Block ℕ)} {b : Block ℕ} {p : Addr}
    (hf : Forward mHeader kernelArena m (pre ++ b :: post))
    (hp : p.toNat = base + BlockChain.span recordSize pre) :
    (next m p).toNat = link (p.toNat + recordSize + b.len) 0 post ∧
    (length m p).toNat = b.len ∧ used m p = b.tag.isSome := by
  have hb := hf.header hp
  exact ⟨congrArg Hdr.next hb, congrArg Hdr.len hb, congrArg Hdr.used hb⟩

/-- A heap of the shape that the allocator keeps: the list tiles the arena, with payloads
of the sizes they should have. -/
structure Shape (m : Memory) (bs : List (Block ℕ)) : Prop where
  tiling : Tiling mHeader kernelArena m bs
  sized : ∀ b ∈ bs, WellSized b

theorem Shape.chain {m : Memory} {bs : List (Block ℕ)} (hs : Shape m bs) :
    Chain recordSize (mHeader.at m) 0 0 base bs := hs.tiling.chain

theorem Shape.span {m : Memory} {bs : List (Block ℕ)} (hs : Shape m bs) :
    BlockChain.span recordSize bs = arena := hs.tiling.span

section Shape

variable {m : Memory} {pre post : List (Block ℕ)} {b : Block ℕ} {p : Addr}

theorem forall_mem_middle {P : Block ℕ → Prop} :
    (∀ c ∈ pre ++ b :: post, P c) ↔ (∀ c ∈ pre, P c) ∧ P b ∧ ∀ c ∈ post, P c := by
  rw [List.forall_mem_append, List.forall_mem_cons]

/-- The header that a memory shows at the place of a block. -/
theorem Shape.header (hs : Shape m (pre ++ b :: post))
    (hp : p.toNat = base + BlockChain.span recordSize pre) :
    (prev m p).toNat = lastAddr recordSize 0 base pre ∧
    (next m p).toNat = link (p.toNat + recordSize + b.len) 0 post ∧
    (length m p).toNat = b.len ∧ used m p = b.tag.isSome := by
  have hb := hs.tiling.header hp
  exact ⟨congrArg Hdr.prev hb, congrArg Hdr.next hb, congrArg Hdr.len hb,
    congrArg Hdr.used hb⟩

/-- A block lies in the arena, below the end of the address space. -/
theorem Shape.bounds (hs : Shape m (pre ++ b :: post))
    (hp : p.toNat = base + BlockChain.span recordSize pre) :
    p.toNat + recordSize + b.len + BlockChain.span recordSize post = base + arena ∧
      Fits p :=
  hs.tiling.bounds hp

/-- Marking a block as free. -/
theorem Shape.setFree (hs : Shape m (pre ++ b :: post))
    (hp : p.toNat = base + BlockChain.span recordSize pre) :
    Shape (setUsed m p false) (pre ++ ⟨b.len, none⟩ :: post) := by
  obtain ⟨-, hfits⟩ := hs.bounds hp
  obtain ⟨hpre, hb, hpost⟩ := forall_mem_middle.mp hs.sized
  exact ⟨hs.tiling.setTag hp none (mHeader.edit_setUsed m hfits false),
    forall_mem_middle.mpr ⟨hpre, .free hb.1, hpost⟩⟩

/-! ### Merging -/

/-- The stores of a merge, when the block at `n` is apart from the one at `p`. -/
theorem merge_edit2 {n : Addr} (l : BitVec 32) (hp : Fits p) (hn : Fits n)
    (hpn : Apart p.toNat n.toNat) :
    Edit2 mHeader m (setPrev (setNext (setLength m p l) p n) n p) p n
      (fun x => { x with len := l.toNat, next := n.toNat })
      fun x => { x with prev := p.toNat } :=
  (((Edit2.refl mHeader m p n).editFst hn hpn (mHeader.edit_setLen m hp l)).editFst hn hpn
    (mHeader.edit_setNext _ hp n)).editSnd hp hpn (mHeader.edit_setPrev _ hn p)

/-- A free block swallows a free block behind it. -/
theorem Shape.absorb {c : Block ℕ} {q n : Addr} {l : BitVec 32} {m' : Memory}
    (hs : Shape m (pre ++ b :: c :: post))
    (hp : p.toNat = base + BlockChain.span recordSize pre)
    (hq : q.toNat = p.toNat + recordSize + b.len)
    (hb : b.tag = none) (hlen : l.toNat = b.len + (recordSize + c.len))
    (hn : n = next m q)
    (hm' : m' = if n ≠ 0 then setPrev (setNext (setLength m p l) p n) n p
      else setNext (setLength m p l) p n) :
    Shape m' (pre ++ ⟨b.len + (recordSize + c.len), none⟩ :: post) := by
  obtain ⟨-, hfits⟩ := hs.bounds hp
  constructor
  case tiling =>
    have htiling : Tiling mHeader kernelArena m' (pre ++
        { b with len := b.len + (recordSize + c.len) } :: post) :=
      hs.tiling.absorb (n := n) (f := fun x => { x with len := l.toNat, next := n.toNat })
        hp hq (by rw [hn]; rfl) (fun hzero => ?_) (fun hne hfitsn hapart => ?_)
        (fun x => by rw [hlen]) fun x => rfl
    · rwa [hb] at htiling
    · rw [hm', if_neg (not_not.mpr hzero)]
      exact (mHeader.edit_setLen m hfits l).trans (mHeader.edit_setNext _ hfits n)
    · rw [hm', if_pos hne]
      exact merge_edit2 l hfits hfitsn hapart
  case sized =>
    obtain ⟨hpre, hbs, hrest⟩ := forall_mem_middle.mp hs.sized
    obtain ⟨hcs, hpost⟩ := List.forall_mem_cons.mp hrest
    refine forall_mem_middle.mpr ⟨hpre, .free ?_, hpost⟩
    have h4 := hbs.1
    have h4' := hcs.1
    rw [recordSize]
    omega

/-- Swallowing a free block leaves the payloads in use alone. -/
theorem payloads_absorb {c : Block ℕ} (a : ℕ) (hb : b.tag = none) (hc : c.tag = none) :
    payloads recordSize a (⟨b.len + (recordSize + c.len), none⟩ :: post) =
      payloads recordSize a (b :: c :: post) := by
  rw [payloads_free _ _ _ rfl, payloads_free _ _ _ hb, payloads_free _ _ _ hc]
  congr 1
  simp only
  omega

/-- The stores of a merge into the block at `p`, whose new successor is `n`. -/
def mergeStores (m : Memory) (p n : Addr) (l : BitVec 32) : Memory :=
  if n ≠ 0 then setPrev (setNext (setLength m p l) p n) n p else setNext (setLength m p l) p n

/-- The first merge of `free` does nothing, or the block swallows the free one behind it. -/
theorem mergeNext_cases (hf : Forward mHeader kernelArena m (pre ++ b :: post))
    (hp : p.toNat = base + BlockChain.span recordSize pre) :
    (mergeNext m p = m ∧ ∀ c ∈ post.head?, c.tag.isSome) ∨
      ∃ c post', post = c :: post' ∧ c.tag = none ∧
        (next m p).toNat = p.toNat + recordSize + b.len ∧
        mergeNext m p = mergeStores m p (next m (next m p))
          (length m p + (headerLen + length m (next m p))) := by
  obtain ⟨hnext, -, -⟩ := row_header hf hp
  obtain ⟨-, hfits⟩ := hf.bounds hp
  cases post with
  | nil =>
      have hzero : next m p = 0 := BitVec.eq_of_toNat_eq (by rw [hnext]; rfl)
      refine .inl ⟨?_, by simp⟩
      rw [mergeNext, if_neg (by simp [hzero])]
  | cons c post =>
      have hfc : Forward mHeader kernelArena m ((pre ++ [b]) ++ c :: post) := by simpa using hf
      have hq : (next m p).toNat = p.toNat + recordSize + b.len := hnext
      have hq' : (next m p).toNat = base + BlockChain.span recordSize (pre ++ [b]) := by
        rw [hq, hp, span_append, span_cons, span_nil]
        omega
      obtain ⟨-, -, hcused⟩ := row_header hfc hq'
      obtain ⟨-, hcfits⟩ := hfc.bounds hq'
      by_cases hused : c.tag.isSome
      · refine .inl ⟨?_, by simpa using hused⟩
        rw [mergeNext, if_neg (by simp [hcused, hused])]
      · have hctag : c.tag = none := by simpa using hused
        have hne : next m p ≠ 0 := ne_zero_of_pos (by rw [hq', base]; omega)
        have hapart : Apart (next m p).toNat p.toNat := by
          rw [Apart]
          omega
        have hcond : next m p ≠ 0 ∧ !used m (next m p) := ⟨hne, by simp [hcused, hctag]⟩
        refine .inr ⟨c, post, rfl, hctag, hq, ?_⟩
        rw [mergeNext, if_pos hcond]
        simp only [next_setLength hfits, next_setLength_of_apart hfits hcfits hapart,
          next_setNext hfits, mergeStores]

/-- The first merge of `free` on the list of blocks. -/
theorem mergeNext_shape (hs : Shape m (pre ++ b :: post))
    (hp : p.toNat = base + BlockChain.span recordSize pre) (hfree : b.tag = none) :
    ∃ b' post', Shape (mergeNext m p) (pre ++ b' :: post') ∧ b'.tag = none ∧
      (∀ a, payloads recordSize a (b' :: post') = payloads recordSize a (b :: post)) ∧
      (Coalesced post → Coalesced (b' :: post')) ∧
      ∀ top a, HeadersBelow recordSize top a (b :: post) →
        HeadersBelow recordSize top a (b' :: post') := by
  obtain ⟨hsame, hhead⟩ | ⟨c, post, rfl, hctag, hq, hmerge⟩ :=
    mergeNext_cases hs.tiling.forward hp
  · refine ⟨b, post, by rwa [hsame], hfree, fun _ => rfl, fun hco => ?_, fun _ _ h => h⟩
    cases post with
    | nil => trivial
    | cons c post => exact hco.cons_used (hhead c rfl) b
  · have hsc : Shape m ((pre ++ [b]) ++ c :: post) := by simpa using hs
    have hq' : (next m p).toNat = base + BlockChain.span recordSize (pre ++ [b]) := by
      rw [hq, hp, span_append, span_cons, span_nil]
      omega
    obtain ⟨-, -, hlen, -⟩ := hs.header hp
    obtain ⟨-, -, hclen, -⟩ := hsc.header hq'
    obtain ⟨hctop, -⟩ := hsc.bounds hq'
    refine ⟨⟨b.len + (recordSize + c.len), none⟩, post, ?_, rfl,
      fun a => payloads_absorb a hfree hctag, fun hco => hco.replace_head hctag _, ?_⟩
    · rw [hmerge]
      refine hs.absorb hp hq hfree ?_ rfl rfl
      refine toNat_merged hlen hclen ?_
      simp only [base, arena] at hctop
      omega
    · rintro top a ⟨hb, -, hpost⟩
      refine ⟨hb, ?_⟩
      simp only [← Nat.add_assoc]
      exact hpost

/-- The link back of the block at `p` may be stale, but not when it leads to a header that
looks free: then it leads to the block before. -/
def BackLinked (m : Memory) (pre : List (Block ℕ)) (p : Addr) : Prop :=
  prev m p ≠ 0 → used m (prev m p) = false →
    ∃ pre' a, pre = pre' ++ [a] ∧ (prev m p).toNat = base + BlockChain.span recordSize pre'

/-- The second merge of `free` does nothing, or the free block before swallows this one. -/
theorem mergePrev_row (hf : Forward mHeader kernelArena m (pre ++ b :: post))
    (hp : p.toNat = base + BlockChain.span recordSize pre) (hback : BackLinked m pre p) :
    (mergePrev m p = m ∧ (prev m p = 0 ∨ used m (prev m p) = true)) ∨
      ∃ pre' a, pre = pre' ++ [a] ∧ a.tag = none ∧
        (prev m p).toNat = base + BlockChain.span recordSize pre' ∧
        p.toNat = (prev m p).toNat + recordSize + a.len ∧
        mergePrev m p = mergeStores m (prev m p) (next m p)
          (length m (prev m p) + (headerLen + length m p)) := by
  obtain ⟨-, hfits⟩ := hf.bounds hp
  by_cases hcond : prev m p ≠ 0 ∧ !used m (prev m p)
  · obtain ⟨hne, hfree⟩ := hcond
    rw [Bool.not_eq_true'] at hfree
    obtain ⟨pre, a, rfl, hprev⟩ := hback hne hfree
    have hfa : Forward mHeader kernelArena m (pre ++ a :: b :: post) := by simpa using hf
    obtain ⟨-, -, haused⟩ := row_header hfa hprev
    obtain ⟨-, hafits⟩ := hfa.bounds hprev
    have hpq : p.toNat = (prev m p).toNat + recordSize + a.len := by
      rw [hprev, hp, span_append, span_cons, span_nil]
      omega
    have hapart : Apart p.toNat (prev m p).toNat := by
      rw [Apart]
      omega
    refine .inr ⟨pre, a, rfl, ?_, hprev, hpq, ?_⟩
    · rw [hfree] at haused
      simpa using haused.symm
    · rw [mergePrev, if_pos ⟨hne, by rw [hfree]; rfl⟩]
      simp only [prev_setLength_of_apart hafits hfits hapart,
        next_setLength_of_apart hafits hfits hapart,
        next_setNext_of_apart hafits hfits hapart,
        prev_setNext_of_apart hafits hfits hapart, mergeStores]
  · refine .inl ⟨by rw [mergePrev, if_neg hcond], ?_⟩
    rw [not_and_or, not_not, Bool.not_eq_true', Bool.not_eq_false] at hcond
    exact hcond

/-- The links back of a tiling are right. -/
theorem Shape.backLinked (hs : Shape m (pre ++ b :: post))
    (hp : p.toNat = base + BlockChain.span recordSize pre) : BackLinked m pre p := by
  intro hne _
  obtain ⟨hprev, -, -, -⟩ := hs.header hp
  rcases List.eq_nil_or_concat' pre with rfl | ⟨pre, a, rfl⟩
  · exact absurd (BitVec.eq_of_toNat_eq hprev) hne
  · rw [lastAddr_concat] at hprev
    exact ⟨pre, a, rfl, hprev⟩

/-- The second merge on a tiling: it does nothing behind a block in use. -/
theorem mergePrev_cases (hs : Shape m (pre ++ b :: post))
    (hp : p.toNat = base + BlockChain.span recordSize pre) :
    (mergePrev m p = m ∧ ∀ a ∈ pre.getLast?, a.tag.isSome) ∨
      ∃ pre' a, pre = pre' ++ [a] ∧ a.tag = none ∧
        (prev m p).toNat = base + BlockChain.span recordSize pre' ∧
        p.toNat = (prev m p).toNat + recordSize + a.len ∧
        mergePrev m p = mergeStores m (prev m p) (next m p)
          (length m (prev m p) + (headerLen + length m p)) := by
  rcases mergePrev_row hs.tiling.forward hp (hs.backLinked hp) with ⟨hsame, hstop⟩ | hmerge
  · refine .inl ⟨hsame, ?_⟩
    obtain ⟨hprev, -, -, -⟩ := hs.header hp
    rcases List.eq_nil_or_concat' pre with rfl | ⟨pre, a, rfl⟩
    · simp
    · have hsa : Shape m (pre ++ a :: b :: post) := by simpa using hs
      rw [lastAddr_concat] at hprev
      obtain ⟨-, -, -, haused⟩ := hsa.header hprev
      have hne : prev m p ≠ 0 := ne_zero_of_pos (by rw [hprev, base]; omega)
      have hused := hstop.resolve_left hne
      rw [haused] at hused
      simpa using hused
  · exact .inr hmerge

/-- The second merge of `free` on the list of blocks. -/
theorem mergePrev_shape (hs : Shape m (pre ++ b :: post))
    (hp : p.toNat = base + BlockChain.span recordSize pre) (hfree : b.tag = none) :
    ∃ bs, Shape (mergePrev m p) bs ∧
      payloads recordSize base bs = payloads recordSize base (pre ++ b :: post) ∧
      (Coalesced pre → Coalesced (b :: post) → Coalesced bs) := by
  rcases mergePrev_cases hs hp with ⟨hsame, hlast⟩ | ⟨pre, a, rfl, hatag, hprev, hpq, hmerge⟩
  · refine ⟨pre ++ b :: post, by rwa [hsame], rfl, fun hpre hco => ?_⟩
    rcases List.eq_nil_or_concat' pre with rfl | ⟨pre, a, rfl⟩
    · exact hco
    · rw [← List.append_cons]
      exact hpre.append_used (hlast a (by simp)) hco
  · have hsa : Shape m (pre ++ a :: b :: post) := by simpa using hs
    obtain ⟨-, -, hlen, -⟩ := hs.header hp
    obtain ⟨-, -, halen, -⟩ := hsa.header hprev
    obtain ⟨htop, -⟩ := hs.bounds hp
    refine ⟨pre ++ ⟨a.len + (recordSize + b.len), none⟩ :: post, ?_, ?_, fun hpre hco => ?_⟩
    · rw [hmerge]
      refine hsa.absorb hprev hpq hatag ?_ rfl rfl
      refine toNat_merged halen hlen ?_
      simp only [base, arena] at htop
      omega
    · rw [← List.append_cons, payloads_append, payloads_append,
        payloads_absorb _ hatag hfree]
    · exact hpre.replace_last hatag (hco.replace_head hfree _)

/-- What the two merges of `free` leave: the block is free, the other payloads are as they
were. -/
theorem free_shape (hs : Shape m (pre ++ b :: post))
    (hp : p.toNat = base + BlockChain.span recordSize pre) :
    ∃ bs, Shape (mergePrev (mergeNext (setUsed m p false) p) p) bs ∧
      payloads recordSize base bs = payloads recordSize base pre ++
        payloads recordSize (base + BlockChain.span recordSize pre + recordSize + b.len)
          post ∧
      (Coalesced (pre ++ b :: post) → Coalesced bs) := by
  obtain ⟨b', post', hs', hfree', hpay', hco', -⟩ := mergeNext_shape (hs.setFree hp) hp rfl
  obtain ⟨bs, hbs, hpay, hco⟩ := mergePrev_shape hs' hp hfree'
  refine ⟨bs, hbs, ?_, fun hall => ?_⟩
  · rw [hpay, payloads_append, hpay', payloads_free _ _ _ rfl]
  · exact hco hall.of_append_left (hco' hall.of_append_right.tail)

/-! ### Taking a block -/

/-- The address of the block behind `n` bytes of payload, without overflow. -/
theorem toNat_split {size : BitVec 32} (h : p.toNat + recordSize + size.toNat < 2 ^ 32) :
    (p + headerLen + size).toNat = p.toNat + recordSize + size.toNat := by
  have hheader : headerLen.toNat = 16 := rfl
  rw [recordSize] at *
  rw [BitVec.toNat_add, BitVec.toNat_add, hheader]
  omega

/-- The stores of the split: the block gets a new successor and length, and the rest of it
a header of its own. -/
theorem splitBlock_edit {size : BitVec 32} (hp : Fits p) (hq : Fits (p + headerLen + size))
    (hpq : Apart p.toNat (p + headerLen + size).toNat) :
    ∃ f g, Edit2 mHeader m (splitBlock m size p) p (p + headerLen + size) f g ∧
      (∀ x, f x = ⟨x.prev, (p + headerLen + size).toNat, size.toNat, x.used⟩) ∧
      ∀ x, g x = ⟨p.toNat, (mHeader.at m p.toNat).next,
        (length m p - size - headerLen).toNat, false⟩ := by
  -- The stores in the order of the source; the second and the fifth store what the
  -- header of `p` shows by then.
  have e1 := (Edit2.refl mHeader m p (p + headerLen + size)).editSnd hp hpq
    (mHeader.edit_setPrev m hq p)
  have hnext : (next (setPrev m (p + headerLen + size) p) p).toNat =
      (mHeader.at m p.toNat).next := by
    have hfst := congrArg Hdr.next e1.fst
    rwa [mHeader.at_toNat] at hfst
  have e2 := e1.editSnd hp hpq (mHeader.edit_setNext _ hq
    (next (setPrev m (p + headerLen + size) p) p))
  have e3 := e2.editFst hq hpq (mHeader.edit_setNext _ hp (p + headerLen + size))
  have e4 := e3.editSnd hp hpq (mHeader.edit_setUsed _ hq false)
  have hlen := e4.fst
  rw [mHeader.at_toNat, mHeader.at_toNat] at hlen
  have hlen' : length _ p = length m p := BitVec.eq_of_toNat_eq (congrArg Hdr.len hlen)
  refine ⟨_, _, (e4.editSnd hp hpq (mHeader.edit_setLen _ hq _)).editFst hq hpq
    (mHeader.edit_setLen _ hp size), fun x => rfl, fun x => ?_⟩
  rw [← hnext, ← hlen']
  rfl

/-- A block of length `l` is split when a header fits behind the `size` bytes. -/
theorem splits_iff {size : BitVec 32} {l : ℕ} (hlen : (length m p).toNat = l)
    (hsize : size.toNat + recordSize < 2 ^ 32) :
    size + headerLen ≤ length m p ↔ size.toNat + recordSize ≤ l := by
  have hheader : headerLen.toNat = 16 := rfl
  rw [recordSize] at *
  rw [BitVec.le_def, hlen, BitVec.toNat_add, hheader, Nat.mod_eq_of_lt hsize]

/-- The stores of `takeBlock` on a block of length `l` that it splits. -/
theorem takeBlock_edit {size : BitVec 32} {l : ℕ} (hlen : (length m p).toNat = l)
    (hend : p.toNat + recordSize + l < 2 ^ 32) (hroom : size.toNat + recordSize ≤ l) :
    (p + headerLen + size).toNat = p.toNat + recordSize + size.toNat ∧
      ∃ f g, Edit2 mHeader m (takeBlock m size p) p (p + headerLen + size) f g ∧
        (∀ x, f x = ⟨x.prev, (p + headerLen + size).toNat, size.toNat, true⟩) ∧
        ∀ x, g x = ⟨p.toNat, (mHeader.at m p.toNat).next, l - size.toNat - recordSize, false⟩ := by
  have hsplit : (p + headerLen + size).toNat = p.toNat + recordSize + size.toNat :=
    toNat_split (by omega)
  have hfits : Fits p := by
    rw [Fits]
    omega
  have hsfits : Fits (p + headerLen + size) := by
    rw [Fits, hsplit]
    omega
  have hapart : Apart p.toNat (p + headerLen + size).toNat := .inl (by omega)
  obtain ⟨f, g, hedit, hf, hg⟩ := splitBlock_edit (m := m) hfits hsfits hapart
  have hrest : (length m p - size - headerLen).toNat = l - size.toNat - recordSize := by
    have hheader : headerLen.toNat = 16 := rfl
    have hp32 := (length m p).isLt
    rw [BitVec.toNat_sub, BitVec.toNat_sub, hlen, hheader]
    rw [recordSize] at *
    omega
  have hused := hedit.editFst hsfits hapart (mHeader.edit_setUsed _ hfits true)
  rw [takeBlock, if_pos ((splits_iff hlen (by omega)).mpr hroom)]
  refine ⟨hsplit, _, g, hused, fun x => ?_, fun x => ?_⟩
  · rw [hf]
  · rw [hg, hrest]

/-- Taking a whole block. -/
theorem Shape.setTaken (hs : Shape m (pre ++ b :: post))
    (hp : p.toNat = base + BlockChain.span recordSize pre) {n : ℕ}
    (hn : n ≤ maxRequest → n ≤ b.len) :
    Shape (setUsed m p true) (pre ++ ⟨b.len, some n⟩ :: post) := by
  obtain ⟨-, hfits⟩ := hs.bounds hp
  obtain ⟨hpre, hb, hpost⟩ := forall_mem_middle.mp hs.sized
  refine ⟨hs.tiling.setTag hp (some n) (mHeader.edit_setUsed m hfits true),
    forall_mem_middle.mpr ⟨hpre, ⟨hb.1, fun n' hn' => ?_⟩, hpost⟩⟩
  obtain rfl := Option.some.inj hn'
  exact hn

/-- Splitting the last block. -/
theorem Shape.split (hs : Shape m (pre ++ [b]))
    (hp : p.toNat = base + BlockChain.span recordSize pre) {size : BitVec 32} {n : ℕ}
    (hsize : size.toNat + recordSize ≤ b.len) (h4 : size.toNat % 4 = 0)
    (hn : n ≤ maxRequest → n ≤ size.toNat) :
    Shape (takeBlock m size p)
      (pre ++ [⟨size.toNat, some n⟩, ⟨b.len - size.toNat - recordSize, none⟩]) := by
  obtain ⟨-, hnext, hlen, -⟩ := hs.header hp
  obtain ⟨htop, -⟩ := hs.bounds hp
  have hend : p.toNat + recordSize + b.len < 2 ^ 32 := by
    simp only [base, arena] at htop
    omega
  obtain ⟨hsplit, f, g, hedit, hf, hg⟩ := takeBlock_edit hlen hend hsize
  constructor
  case tiling =>
    refine hs.tiling.splitLast (some n) hp hsplit (by omega) hedit hf fun x => ?_
    have hzero : (mHeader.at m p.toNat).next = 0 := by
      rw [mHeader.at_toNat]
      exact hnext
    rw [hg, hzero]
  case sized =>
    obtain ⟨hpre, hb, -⟩ := forall_mem_middle.mp hs.sized
    refine forall_mem_middle.mpr ⟨hpre, ⟨h4, fun n' hn' => ?_⟩, ?_⟩
    · obtain rfl := Option.some.inj hn'
      exact hn
    · rw [List.forall_mem_singleton]
      refine .free ?_
      have hb4 := hb.1
      rw [recordSize] at *
      omega

theorem free_mem {ptr : Addr} {k : KernelHeap} (h : ptr ≠ 0) :
    (free ptr k).mem = mergePrev (mergeNext (setUsed k.mem (ptr - headerLen) false)
      (ptr - headerLen)) (ptr - headerLen) := by
  rw [free, if_neg h]

theorem free_null (k : KernelHeap) : free 0 k = k := by
  rw [free, if_pos rfl]

theorem free_head (ptr : Addr) (k : KernelHeap) : (free ptr k).head = k.head := by
  rw [free]
  split_ifs <;> rfl

/-! ### The search -/

/-- What the search answers: the end of the list when no free block has the size, or else the
first free block that has. -/
theorem findFit_row {size : BitVec 32} {bs : List (Block ℕ)} :
    ∀ {a : ℕ} {p r : Addr} {fuel : ℕ},
      Links recordSize (mHeader.at m) 0 a bs → 0 < a →
      p.toNat = link a 0 bs → findFit m size fuel p = some r →
      (r = 0 ∧ ∀ b ∈ bs, b.tag = none → b.len < size.toNat) ∨
        ∃ pre b post, bs = pre ++ b :: post ∧
          r.toNat = a + BlockChain.span recordSize pre ∧ b.tag = none ∧
          size.toNat ≤ b.len ∧ ∀ c ∈ pre, c.tag = none → c.len < size.toNat := by
  induction bs with
  | nil =>
      intro a p r fuel _ _ hp h
      have hzero : p = 0 := BitVec.eq_of_toNat_eq hp
      cases fuel with
      | zero => cases h
      | succ fuel =>
          rw [findFit, if_pos hzero] at h
          exact .inl ⟨(Option.some.inj h).symm, List.forall_mem_nil _⟩
  | cons b bs ih =>
      intro a p r fuel hl ha hp h
      rw [link_cons] at hp
      cases fuel with
      | zero => cases h
      | succ fuel =>
          have hhdr := hl.1
          rw [← hp, mHeader.at_toNat] at hhdr
          have hlen : (length m p).toNat = b.len := congrArg Hdr.len hhdr
          have hused : used m p = b.tag.isSome := congrArg Hdr.used hhdr
          rw [findFit, if_neg (ne_zero_of_pos (by omega))] at h
          by_cases hfit : !used m p ∧ length m p ≥ size
          · rw [if_pos hfit] at h
            obtain rfl := Option.some.inj h
            refine .inr ⟨[], b, bs, rfl, hp, ?_, ?_, List.forall_mem_nil _⟩
            · simpa [hused] using hfit.1
            · rw [← hlen]
              exact hfit.2
          · rw [if_neg hfit] at h
            have hshort : b.tag = none → b.len < size.toNat := by
              intro htag
              rw [← hlen]
              refine not_le.mp fun hle => hfit ⟨?_, hle⟩
              rw [hused, htag]
              rfl
            rcases ih hl.2 (by omega) (by rw [← hp]; exact congrArg Hdr.next hhdr) h with
              ⟨hr, hnone⟩ | ⟨pre, c, post, rfl, hr, hfree, hle, hfirst⟩
            · exact .inl ⟨hr, List.forall_mem_cons.mpr ⟨hshort, hnone⟩⟩
            · refine .inr ⟨b :: pre, c, post, rfl, ?_, hfree, hle,
                List.forall_mem_cons.mpr ⟨hshort, hfirst⟩⟩
              rw [hr, span_cons]
              omega

/-- The search on a chain. -/
theorem findFit_cases {size : BitVec 32} {bs : List (Block ℕ)} {prv a : ℕ} {p r : Addr}
    {fuel : ℕ} (hc : Chain recordSize (mHeader.at m) 0 prv a bs) (ha : 0 < a)
    (hp : p.toNat = link a 0 bs) (h : findFit m size fuel p = some r) :
    r = 0 ∨ ∃ pre b post, bs = pre ++ b :: post ∧
      r.toNat = a + BlockChain.span recordSize pre ∧ b.tag = none ∧ size.toNat ≤ b.len := by
  rcases findFit_row hc.links ha hp h with ⟨hr, -⟩ | ⟨pre, b, post, hbs, hr, hfree, hle, -⟩
  · exact .inl hr
  · exact .inr ⟨pre, b, post, hbs, hr, hfree, hle⟩

/-- The search ends: fuel for more blocks than the list has is enough. -/
theorem findFit_returns {size : BitVec 32} {bs : List (Block ℕ)} :
    ∀ {a : ℕ} {p : Addr} {fuel : ℕ}, Links recordSize (mHeader.at m) 0 a bs → 0 < a →
      p.toNat = link a 0 bs → bs.length < fuel → ∃ r, findFit m size fuel p = some r := by
  induction bs with
  | nil =>
      intro a p fuel _ _ hp hfuel
      have hzero : p = 0 := BitVec.eq_of_toNat_eq hp
      obtain ⟨fuel, rfl⟩ := Nat.exists_eq_succ_of_ne_zero (Nat.ne_zero_of_lt hfuel)
      exact ⟨0, by rw [findFit, if_pos hzero]⟩
  | cons b bs ih =>
      intro a p fuel hl ha hp hfuel
      obtain ⟨fuel, rfl⟩ := Nat.exists_eq_succ_of_ne_zero (Nat.ne_zero_of_lt hfuel)
      rw [link_cons] at hp
      have hhdr := hl.1
      rw [← hp, mHeader.at_toNat] at hhdr
      rw [findFit, if_neg (ne_zero_of_pos (by omega))]
      by_cases hfit : !used m p ∧ length m p ≥ size
      · exact ⟨p, by rw [if_pos hfit]⟩
      · rw [if_neg hfit]
        exact ih hl.2 (by omega) (by rw [← hp]; exact congrArg Hdr.next hhdr)
          (Nat.lt_of_succ_lt_succ hfuel)

end Shape

/-! ### Rounding -/

theorem and_three (size : BitVec 32) : (size &&& 3).toNat = size.toNat % 4 := by
  rw [BitVec.toNat_and]
  exact Nat.and_two_pow_sub_one_eq_mod size.toNat 2

theorem and_not_add_and (x y : BitVec 32) : (x &&& ~~~y) + (x &&& y) = x := by
  rw [BitVec.add_eq_or_of_and_eq_zero]
  · ext i hi
    simp only [BitVec.getElem_or, BitVec.getElem_and, BitVec.getElem_not]
    cases x[i] <;> cases y[i] <;> rfl
  · ext i hi
    simp only [BitVec.getElem_and, BitVec.getElem_not, BitVec.getElem_zero]
    cases x[i] <;> cases y[i] <;> rfl

theorem and_not_three (size : BitVec 32) :
    (size &&& ~~~3).toNat = size.toNat - size.toNat % 4 := by
  have hle : (size &&& ~~~3).toNat ≤ size.toNat := by
    rw [BitVec.toNat_and]
    exact Nat.and_le_left
  have hnat := congrArg BitVec.toNat (and_not_add_and size 3)
  rw [BitVec.toNat_add, and_three] at hnat
  have := size.isLt
  omega

theorem and_three_eq_zero {size : BitVec 32} : size &&& 3 = 0 ↔ size.toNat % 4 = 0 := by
  rw [← and_three, ← BitVec.toNat_inj]
  rfl

/-- A request is rounded up to whole words. -/
theorem roundUp_mod (size : BitVec 32) : (roundUp size).toNat % 4 = 0 := by
  rw [roundUp]
  split_ifs with hround
  · have hfour : (4 : BitVec 32).toNat = 4 := rfl
    rw [BitVec.toNat_add, and_not_three, hfour]
    omega
  · rwa [Ne, not_not, and_three_eq_zero] at hround

/-- The bytes of the whole words of a request that does not wrap. -/
theorem toNat_roundUp {size : BitVec 32} (h : size.toNat ≤ maxRequest) :
    (roundUp size).toNat = (size.toNat + 3) / 4 * 4 := by
  rw [maxRequest] at h
  rw [roundUp]
  split_ifs with hround
  · have hfour : (4 : BitVec 32).toNat = 4 := rfl
    rw [Ne, and_three_eq_zero] at hround
    rw [BitVec.toNat_add, and_not_three, hfour]
    omega
  · rw [Ne, not_not, and_three_eq_zero] at hround
    omega

/-- Rounding up does not lose bytes, unless it wraps. -/
theorem le_roundUp {size : BitVec 32} (h : size.toNat ≤ maxRequest) :
    size.toNat ≤ (roundUp size).toNat := by
  rw [toNat_roundUp h]
  omega

end B2OS.Kernel
