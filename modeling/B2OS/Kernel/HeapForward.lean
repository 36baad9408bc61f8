import B2OS.Kernel.HeapRun

/-!
# The Chain of the Heap with Stale Links Back

`heap_alloc` of `Src/memory/heap.c` does not store the new header into the successor of the
block that it cuts, so behind a cut in the middle one link back is stale. The chain is still a
row of blocks that fill the region, as its links to the successors show it. A stale link back
does harm only where it is followed: by `heap_free` when the header at its end looks free, and
by `heap_alloc` when it moves a block.

## Main results

* `heapFree_forward`: `heap_free` gives a block back when its link back does not mislead it.
* `cutBlock_forward`, `moveBlock_forward`: the two steps of `heap_alloc` on any block.
-/

namespace B2OS.Heap

open ByteMemory BlockChain B2OS.Kernel

section Forward

variable {m : Memory} {pre post : List (Block Request)} {a b : Block Request} {p n : Addr}

/-! ### Giving a block back -/

/-- The stores of a merge let the block at `p` swallow its successor. -/
theorem mergeStores_forward {q : Addr} {l : BitVec 32}
    (hf : Forward bHeader heapArena m (pre ++ a :: b :: post))
    (hp : p.toNat = heapLo + span recordSize pre)
    (hq : q.toNat = p.toNat + recordSize + a.len)
    (hlen : l.toNat = a.len + (recordSize + b.len)) (hn : n = next m q) :
    Forward bHeader heapArena (mergeStores m p n l)
      (pre ++ { a with len := a.len + (recordSize + b.len) } :: post) := by
  obtain ⟨-, hfits⟩ := hf.bounds hp
  refine hf.absorb (n := n) (f := fun x => { x with len := l.toNat, next := n.toNat }) hp hq
    (by rw [hn]; rfl) (fun hzero => ?_) (fun hne hnfits hapart => ?_)
    (fun x => by rw [hlen]) fun x => rfl
  · rw [mergeStores, if_neg (not_not.mpr hzero)]
    exact merge_edit l hfits
  · rw [mergeStores, if_pos hne]
    exact merge_edit2 l hfits hnfits hapart

/-- The first merge of `heap_free` on a row. -/
theorem mergeNext_forward (hf : Forward bHeader heapArena m (pre ++ b :: post))
    (hp : p.toNat = heapLo + span recordSize pre) :
    ∃ l post', Forward bHeader heapArena (mergeNext m p) (pre ++ ⟨l, b.tag⟩ :: post') ∧
      ∀ x, payloads recordSize (x + recordSize + l) post' =
        payloads recordSize (x + recordSize + b.len) post := by
  rcases mergeNext_cases hf hp with ⟨hsame, -⟩ | ⟨c, post, rfl, hctag, hq, hmerge⟩
  · rw [hsame]
    exact ⟨b.len, post, hf, fun _ => rfl⟩
  · have hfc : Forward bHeader heapArena m ((pre ++ [b]) ++ c :: post) := by simpa using hf
    have hqp : (next m p).toNat = heapLo + span recordSize (pre ++ [b]) := by
      rw [hq, hp, span_append, span_cons, span_nil]
      omega
    obtain ⟨-, hlen, -⟩ := row_header hf hp
    obtain ⟨-, hclen, -⟩ := row_header hfc hqp
    obtain ⟨hctop, -⟩ := hfc.bounds hqp
    have hsum := toNat_merged hlen hclen
      (by simp only [heapArena, heapLo, heapLen] at hctop; omega)
    rw [hmerge]
    refine ⟨_, post, mergeStores_forward hf hp hq hsum rfl, fun x => ?_⟩
    rw [payloads_free _ c _ hctag]
    congr 1
    omega

/-- The second merge of `heap_free` on a row, and the mark. -/
theorem mergePrev_forward (hf : Forward bHeader heapArena m (pre ++ b :: post))
    (hp : p.toNat = heapLo + span recordSize pre) (hback : BackLinked m pre p) :
    ∃ bs, Forward bHeader heapArena (setFree (mergePrev m p).1 (mergePrev m p).2 true) bs ∧
      payloads recordSize heapLo bs = payloads recordSize heapLo pre ++
        payloads recordSize (heapLo + span recordSize pre + recordSize + b.len) post := by
  obtain ⟨-, hfits⟩ := hf.bounds hp
  rcases mergePrev_row hf hp hback with ⟨hsame, -⟩ | ⟨pre, a, rfl, hatag, hprev, hpq, hmerge⟩
  · rw [hsame]
    refine ⟨_, hf.setTag hp none (edit_setFree m hfits), ?_⟩
    rw [payloads_append, payloads_free _ _ _ rfl]
  · have hfa : Forward bHeader heapArena m (pre ++ a :: b :: post) := by simpa using hf
    obtain ⟨-, hlen, -⟩ := row_header hf hp
    obtain ⟨-, halen, -⟩ := row_header hfa hprev
    obtain ⟨htop, -⟩ := hf.bounds hp
    obtain ⟨-, hafits⟩ := hfa.bounds hprev
    have hsum := toNat_merged halen hlen
      (by simp only [heapArena, heapLo, heapLen] at htop; omega)
    have habs := mergeStores_forward hfa hprev hpq hsum rfl
    rw [hmerge]
    refine ⟨_, habs.setTag hprev none (edit_setFree _ hafits), ?_⟩
    rw [payloads_append, payloads_free _ _ _ rfl, payloads_append, payloads_free _ _ _ hatag,
      payloads, List.append_nil, span_append, span_cons, span_nil]
    congr 2
    dsimp only
    omega

/-- What `heap_free` leaves of a row: the block is free, the other payloads are as they were. -/
theorem heapFree_forward {ptr : Addr} (hf : Forward bHeader heapArena m (pre ++ b :: post))
    (hptr : ptr ≠ 0) (hp : (ptr - blockSize).toNat = heapLo + span recordSize pre)
    (hback : BackLinked (mergeNext m (ptr - blockSize)) pre (ptr - blockSize)) :
    ∃ bs, Forward bHeader heapArena (heapFree ptr m) bs ∧
      payloads recordSize heapLo bs = payloads recordSize heapLo pre ++
        payloads recordSize (heapLo + span recordSize pre + recordSize + b.len) post := by
  obtain ⟨l, post', hf', hpay'⟩ := mergeNext_forward hf hp
  obtain ⟨bs, hfbs, hpay⟩ := mergePrev_forward hf' hp hback
  rw [heapFree, if_neg hptr]
  exact ⟨bs, hfbs, by rw [hpay, hpay']⟩

/-! ### Taking a block -/

/-- `heap_alloc` cuts `size` bytes off the front of a block. -/
theorem cutBlock_forward (hf : Forward bHeader heapArena m (pre ++ b :: post))
    (hp : p.toNat = heapLo + span recordSize pre) {size : BitVec 32}
    (hroom : size.toNat + recordSize ≤ b.len) (t : Request) :
    Forward bHeader heapArena (cutBlock m p size)
      (pre ++ ⟨size.toNat, some t⟩ :: ⟨b.len - size.toNat - recordSize, none⟩ :: post) := by
  obtain ⟨-, hfits⟩ := hf.bounds hp
  obtain ⟨hq, hqfits, hrest⟩ := cutBlock_places hf hp hroom
  refine hf.split (some t) hp hq (by omega)
    (cutBlock_edit hfits hqfits (.inl (by omega))) (fun x => rfl) fun x => ?_
  rw [hrest]
  rfl

/-- The header of the block at `p` moves up by `pad`, and its predecessor gets the bytes
below, when the link back of the block is right. -/
theorem moveBlock_forward (hf : Forward bHeader heapArena m (pre ++ a :: b :: post))
    (hp : p.toNat = heapLo + span recordSize (pre ++ [a]))
    (hprev : (prev m p).toNat = heapLo + span recordSize pre) {pad : BitVec 32}
    (hroom : pad.toNat ≤ b.len) :
    Forward bHeader heapArena (moveBlock m p pad)
        (pre ++ { a with len := a.len + pad.toNat } ::
          { b with len := b.len - pad.toNat } :: post) ∧
      (p + pad).toNat = p.toNat + pad.toNat := by
  have hfb : Forward bHeader heapArena m ((pre ++ [a]) ++ b :: post) := by simpa using hf
  obtain ⟨hnext, hlen, -⟩ := row_header hfb hp
  obtain ⟨-, halen, -⟩ := row_header hf hprev
  obtain ⟨htop, hfits⟩ := hfb.bounds hp
  obtain ⟨-, hafits⟩ := hf.bounds hprev
  have hpq : p.toNat = (prev m p).toNat + recordSize + a.len := by
    rw [hprev, hp, span_append, span_cons, span_nil]
    omega
  have hend : p.toNat + recordSize + b.len ≤ heapLo + heapLen := by
    simp only [heapArena] at htop
    omega
  have hmoved : (p + pad).toNat = p.toNat + pad.toNat := by
    rw [BitVec.toNat_add]
    simp only [heapLo, heapLen, recordSize] at *
    omega
  have hmfits : Fits (p + pad) := by
    simp only [Fits, heapLo, heapLen] at *
    omega
  have hwipe : ChangedOnly m (memset m p 0 blockSize) p.toNat (p.toNat + 16) :=
    memset_changedOnly m 0 hfits
  have hedit : Edit2 bHeader (memset m p 0 blockSize) (moveStores m p (prev m p) pad)
      (prev m p) (p + pad) _ _ :=
    moveBlock_edit (record m p) (sz m p - pad) (sz m (prev m p) + pad) hafits hmfits
      (.inl (by omega))
  have hasum : (sz m (prev m p) + pad).toNat = a.len + pad.toNat := by
    rw [BitVec.toNat_add, halen]
    simp only [heapLo, heapLen, recordSize] at *
    omega
  have hbdiff : (sz m p - pad).toNat = b.len - pad.toNat := by
    have hp32 := (sz m p).isLt
    rw [BitVec.toNat_sub, hlen]
    omega
  have hother : ∀ x, x + recordSize ≤ 2 ^ 32 → x + recordSize ≤ (prev m p).toNat ∨
      p.toNat + recordSize + b.len ≤ x →
        bHeader.at (moveStores m p (prev m p) pad) x = bHeader.at m x := by
    intro x hx hout
    rw [hedit.other x hx (by rw [Apart]; omega) (by rw [Apart]; omega),
      HeaderFormat.at_changedOnly hwipe hx (by rw [recordSize] at *; omega)]
  have hrow : Forward bHeader heapArena (moveStores m p (prev m p) pad)
      (pre ++ { a with len := a.len + pad.toNat } ::
        { b with len := b.len - pad.toNat } :: post) := by
    refine hf.pad hprev hpq hroom ?_ ?_ (fun x hx => congrArg Hdr.fwd (hother x ?_ (.inl ?_)))
      fun x hx => congrArg Hdr.fwd (hother x ?_ (.inr ?_))
    · rw [hedit.fst, HeaderFormat.at_changedOnly hwipe hafits (.inl (by omega)), hasum, hmoved]
      rfl
    · rw [← hmoved, hedit.snd, hbdiff, bHeader.at_toNat]
      rfl
    · have hbounds := place_bounds hx
      rw [Fits] at hafits
      simp only [heapArena] at hbounds
      omega
    · have hbounds := place_bounds hx
      simp only [heapArena] at hbounds
      omega
    · have hbounds := place_bounds hx
      simp only [heapArena, heapLo, heapLen] at *
      omega
    · have hbounds := place_bounds hx
      omega
  refine ⟨?_, hmoved⟩
  rw [moveBlock_eq rfl rfl (ne_zero_of_pos (by rw [hprev, heapLo]; omega)) hafits hmfits
    (.inl (by omega)) (hwipe.record_eq hafits (.inl (by omega)))]
  split_ifs with hne
  · -- the link back of the successor
    obtain ⟨hnat, hnfits⟩ := hfb.of_link hp hnext hne
    refine hrow.setBack ?_ (bHeader.edit_setPrev _ hnfits (p + pad)) fun x => rfl
    cases post with
    | nil => exact absurd (BitVec.eq_of_toNat_eq hnext) hne
    | cons c post =>
        refine mem_places_iff.mpr ⟨pre ++ [{ a with len := a.len + pad.toNat },
          { b with len := b.len - pad.toNat }], c, post, by simp, ?_⟩
        rw [hnat, hpq, hprev, span_append, span_cons, span_cons, span_nil]
        simp only [heapArena]
        omega
  · exact hrow

end Forward

end B2OS.Heap
