import B2OS.Kernel.HeapSearch

/-!
# The States that the Heap Reaches

A run of `heap_alloc`, `heap_free` and of stores of clients keeps the chain a row of blocks
with their owners as long as its steps are `Sound`: the block that `heap_alloc` takes holds
what is put into it, and no link back that is followed is stale.

## Main results

* `RowLayout.step`: what a sound step keeps.
* `rowLayout_of_run`: what a run of sound steps keeps.
-/

namespace B2OS.Heap

open ByteMemory BlockChain B2OS.Kernel

/-! ### Sound steps -/

/-- The link back of a block leads to a block of the chain whose link leads to the block. -/
def Linked (m : Memory) (blk : Addr) : Prop := OnChain m (prev m blk) ∧ next m (prev m blk) = blk

/-- When the header that the link back of a block leads to looks free, the link is right. -/
def BackSafe (m : Memory) (blk : Addr) : Prop :=
  prev m blk ≠ 0 → isFree m (prev m blk) = true → Linked m blk

/-- The steps that keep the chain: the block that `heap_alloc` takes holds padding, payload and
header, and has a right link back when it moves; the block that `heap_free` gives back has
one when the second merge would follow it. -/
def HeapOp.Sound (s : Session) : HeapOp → Prop
  | .alloc size align =>
      (∀ blk, First s.mem size align blk → Holds s.mem size align blk ∧
        (szPad align blk ≠ 0 → Linked s.mem blk)) ∧ NullSafe s.mem size align
  | .free ptr => ptr ≠ 0 → BackSafe (mergeNext s.mem (ptr - blockSize)) (ptr - blockSize)
  | .store _ _ _ => True

/-- A row of blocks that fill the region; those in use belong to the live pointers. -/
structure RowLayout (m : Memory) (live : ℕ → Option Request) (bs : List (Block Request)) :
    Prop where
  forward : Forward bHeader heapArena m bs
  owned : Owned live (payloads recordSize heapLo bs)

section RowLayout

variable {m m' : Memory} {live : ℕ → Option Request} {bs pre post : List (Block Request)}
variable {b : Block Request} {p ptr blk : Addr} {size align : BitVec 32} {t : Request}

/-- The block that a right link back leads to is the one before. -/
theorem Linked.pred (hf : Forward bHeader heapArena m (pre ++ b :: post))
    (hp : p.toNat = heapLo + span recordSize pre) (h : Linked m p) :
    ∃ pre' a, pre = pre' ++ [a] ∧ (prev m p).toNat = heapLo + span recordSize pre' := by
  obtain ⟨hon, hback⟩ := h
  obtain ⟨pre', a, post', heq, hprev⟩ := mem_places_iff.mp ((onChain_iff hf).mp hon)
  rw [heq] at hf
  obtain ⟨hnext, -, -⟩ := row_header hf hprev
  rw [hback] at hnext
  cases post' with
  | nil =>
      rw [hp, link_nil, heapLo] at hnext
      omega
  | cons c post' =>
      rw [link_cons] at hnext
      have happ : pre ++ b :: post = (pre' ++ [a]) ++ c :: post' := by simpa using heq
      have hpos : 0 < recordSize := by decide
      refine ⟨pre', a, eq_of_span_eq recordSize hpos happ ?_, hprev⟩
      rw [span_append, span_cons, span_nil]
      omega

/-- `heap_alloc` cuts a block of the row, and the new payload is live. -/
theorem RowLayout.cut (hf : Forward bHeader heapArena m (pre ++ b :: post))
    (ho : Owned live (payloads recordSize heapLo pre ++
      payloads recordSize (heapLo + span recordSize pre + recordSize + b.len) post))
    (hp : p.toNat = heapLo + span recordSize pre)
    (hroom : size.toNat + recordSize ≤ b.len) (t : Request) :
    ∃ bs', RowLayout (cutBlock m p size)
      (Function.update live (headerToPtr p).toNat (some t)) bs' := by
  obtain ⟨htop, -⟩ := hf.bounds hp
  have hptr : (headerToPtr p).toNat = heapLo + span recordSize pre + recordSize := by
    have hblock : blockSize.toNat = 16 := rfl
    rw [headerToPtr, BitVec.toNat_add, hblock, hp]
    simp only [heapArena, heapLo, heapLen, recordSize] at *
    omega
  refine ⟨_, cutBlock_forward hf hp hroom t, ?_⟩
  have hpay : payloads recordSize heapLo
      (pre ++ ⟨size.toNat, some t⟩ :: ⟨b.len - size.toNat - recordSize, none⟩ :: post) =
      payloads recordSize heapLo pre ++ ⟨(headerToPtr p).toNat, size.toNat, t⟩ ::
        payloads recordSize (heapLo + span recordSize pre + recordSize + b.len) post := by
    have hend : heapLo + span recordSize pre + recordSize + size.toNat + recordSize +
        (b.len - size.toNat - recordSize) =
        heapLo + span recordSize pre + recordSize + b.len := by omega
    rw [payloads_append, payloads, payloads_free _ _ _ rfl, hptr, hend]
    simp only [Option.toList_some, List.map_cons, List.map_nil, List.cons_append,
      List.nil_append]
  rw [hpay]
  exact ho.alloc (by rw [hptr]; exact payload_ne (by decide))

/-- `heap_alloc` takes a free block of the row that holds what is put into it. -/
theorem RowLayout.take (hl : RowLayout m live bs) (hon : OnChain m blk)
    (hholds : Holds m size align blk) (hlink : szPad align blk ≠ 0 → Linked m blk)
    (t : Request) :
    ∃ bs', RowLayout (takeBlock m size align blk).2
      (Function.update live (takeBlock m size align blk).1.toNat (some t)) bs' := by
  obtain ⟨hfree, hroom⟩ := hholds
  obtain ⟨pre, b, post, rfl, hp⟩ := mem_places_iff.mp ((onChain_iff hl.forward).mp hon)
  obtain ⟨-, hlen, hflag⟩ := row_header hl.forward hp
  have hblock : blockSize.toNat = recordSize := rfl
  have htag : b.tag = none := by
    rw [hfree] at hflag
    simpa using hflag.symm
  have howned := hl.owned
  rw [payloads_append, payloads_free _ _ _ htag] at howned
  rw [hlen, hblock] at hroom
  rw [takeBlock]
  by_cases hpad : szPad align blk = 0
  · have hsame : blk + szPad align blk = blk := by
      rw [hpad]
      exact BitVec.add_zero blk
    simp only [hsame, if_neg (not_not.mpr hpad)]
    exact RowLayout.cut hl.forward howned hp (by omega) t
  · obtain ⟨pre, a, rfl, hprev⟩ := (hlink hpad).pred hl.forward hp
    have hfa : Forward bHeader heapArena m (pre ++ a :: b :: post) := by simpa using hl.forward
    have hpadle : (szPad align blk).toNat ≤ b.len := by omega
    obtain ⟨hmoved, hat⟩ := moveBlock_forward hfa hp hprev hpadle
    rw [List.append_cons] at hmoved
    have hspan : span recordSize
        (pre ++ [{ a with len := a.len + (szPad align blk).toNat }]) =
        span recordSize (pre ++ [a]) + (szPad align blk).toNat := by
      simp only [span_append, span_cons, span_nil]
      omega
    simp only [ne_eq, hpad, not_false_eq_true, if_true]
    refine RowLayout.cut hmoved ?_ (by rw [hat, hp, hspan]; omega) (by dsimp only; omega) t
    have hend : heapLo + span recordSize
        (pre ++ [{ a with len := a.len + (szPad align blk).toNat }]) + recordSize +
          (b.len - (szPad align blk).toNat) =
        heapLo + span recordSize (pre ++ [a]) + recordSize + b.len := by
      rw [hspan]
      omega
    rw [hend]
    exact howned.setLen

/-- `heap_free` of a live pointer gives its block back. -/
theorem RowLayout.free (hl : RowLayout m live bs) (hlive : live ptr.toNat = some t)
    (hback : BackSafe (mergeNext m (ptr - blockSize)) (ptr - blockSize)) :
    ∃ bs', RowLayout (heapFree ptr m) (Function.update live ptr.toNat none) bs' := by
  obtain ⟨pre, b, post, rfl, htag, haddr, -⟩ := Owned.block (A := heapArena) hl.owned hlive
  have hne : ptr ≠ 0 := ne_zero_of_pos (by rw [haddr]; simp only [heapArena, heapLo]; omega)
  have hp : (ptr - blockSize).toNat = heapLo + span recordSize pre := entry_toNat haddr
  obtain ⟨l, post', hf', -⟩ := mergeNext_forward hl.forward hp
  obtain ⟨bs', hf, hpay⟩ := heapFree_forward hl.forward hne hp
    fun hprev hfree => (hback hprev hfree).pred hf' hp
  refine ⟨bs', hf, ?_⟩
  have howned := hl.owned
  rw [payloads_append, payloads, htag] at howned
  rw [hpay, haddr]
  exact howned.release (payload_ne (by decide))

/-- Stores into the payload of a live pointer keep the row. -/
theorem RowLayout.store (hl : RowLayout m live bs) (hlive : live ptr.toNat = some t)
    (hch : ChangedOnly m m' ptr.toNat (ptr.toNat + (sz m (ptr - blockSize)).toNat)) :
    RowLayout m' live bs := by
  obtain ⟨pre, b, post, rfl, -, haddr, -⟩ := Owned.block (A := heapArena) hl.owned hlive
  have hp : (ptr - blockSize).toNat = heapLo + span recordSize pre := entry_toNat haddr
  obtain ⟨-, hlen, -⟩ := row_header hl.forward hp
  rw [hlen] at hch
  refine ⟨hl.forward.changedOnly hp hch ?_ ?_, hl.owned⟩
  · rw [hp]
    exact haddr.ge
  · rw [hp, haddr]
    exact le_rfl

theorem RowLayout.live_zero (hl : RowLayout m live bs) : live 0 = none :=
  Owned.live_zero (A := heapArena) hl.owned

/-- The payload of a live pointer lies in the region. -/
theorem RowLayout.live_end (hl : RowLayout m live bs) (hlive : live ptr.toNat = some t) :
    ptr.toNat + (sz m (ptr - blockSize)).toNat ≤ heapLo + heapLen := by
  obtain ⟨pre, b, post, rfl, -, haddr, hmem⟩ := Owned.block (A := heapArena) hl.owned hlive
  obtain ⟨-, hlen, -⟩ := row_header hl.forward (entry_toNat haddr)
  have hend := (payload_bounds hmem).2
  rw [hl.forward.span] at hend
  rw [hlen]
  exact hend

end RowLayout

/-- A sound step keeps the row and its owners. -/
theorem RowLayout.step {s t : Session} {op : HeapOp} {bs : List (Block Request)}
    (hl : RowLayout s.mem s.live bs) (h : HeapStep s op t) (hsound : op.Sound s) :
    ∃ bs', RowLayout t.mem t.live bs' := by
  cases h with
  | alloc hcall =>
      obtain ⟨htake, hnull⟩ := hsound
      obtain ⟨blk, hfind, hblk⟩ := heapAlloc_found hcall
      have hfirst := found_first hl.forward hnull hfind
      obtain ⟨hholds, hlink⟩ := htake blk hfirst
      have hrow := hl.take hfirst.1 hholds hlink
      rw [hblk] at hrow
      exact hrow _
  | @free ptr hlive =>
      rcases hlive with rfl | ⟨r, hr⟩
      · have hsame : Function.update s.live 0 none = s.live :=
          Function.update_eq_self_iff.mpr hl.live_zero.symm
        refine ⟨bs, ?_⟩
        rw [heapFree, if_pos rfl]
        change RowLayout s.mem (Function.update s.live 0 none) bs
        rwa [hsame]
      · refine hl.free hr (hsound ?_)
        rintro rfl
        have hnone := hl.live_zero
        rw [show (0 : Addr).toNat = 0 from rfl, hnone] at hr
        cases hr
  | @store ptr i value r hlive hi =>
      have hend := hl.live_end hlive
      refine ⟨bs, hl.store hlive ?_⟩
      have hstore := ChangedOnly.store8 s.mem (ptr + BitVec.ofNat 32 i) value
      rw [toNat_add_lt (a := ptr) (n := i + 1) (k := i) ?_ (by omega)] at hstore
      · exact hstore.mono (by omega) (by omega)
      · simp only [heapLo, heapLen] at hend
        omega

/-- A run of sound steps keeps the row and its owners. -/
theorem rowLayout_of_run {m : Memory} {l : List HeapOp} {t : Session}
    (h : Run (Guarded (fun s op => op.Sound s) HeapStep) (Session.start m) l t) :
    ∃ bs, RowLayout t.mem t.live bs := by
  have hstart := start_layout m
  exact h.inv (I := fun s => ∃ bs, RowLayout s.mem s.live bs)
    (fun ⟨bs, hl⟩ ⟨hsound, hstep⟩ => hl.step hstep hsound)
    ⟨_, hstart.tiling.forward, hstart.owned⟩

/-- The chain that `heap_init` leaves has one block. -/
theorem start_onChain (m : Memory) {p : Addr} :
    OnChain (Session.start m).mem p ↔ p = firstBlock := by
  rw [onChain_iff (start_layout m).tiling.forward, places_cons, places_nil, List.mem_singleton]
  exact ⟨fun h => BitVec.eq_of_toNat_eq h, fun h => congrArg BitVec.toNat h⟩

/-- That block holds a request without padding. -/
theorem start_holds (m : Memory) {size align : BitVec 32} (hpad : szPad align firstBlock = 0)
    (hsize : size.toNat + recordSize ≤ heapLen - recordSize) :
    Holds (Session.start m).mem size align firstBlock ∧
      Accepts (Session.start m).mem size align firstBlock := by
  have hrec := heapInit_record m
  have hsz : sz (Session.start m).mem firstBlock = HEAP_SIZE - blockSize :=
    congrArg Record.word2 hrec
  have hlen : (HEAP_SIZE - blockSize).toNat = heapLen - recordSize := rfl
  have hholds : Holds (Session.start m).mem size align firstBlock := by
    refine ⟨congrArg Record.flag hrec, ?_⟩
    rw [hpad, hsz, hlen]
    exact le_trans (by rw [show (0 : BitVec 32).toNat = 0 from rfl, Nat.zero_add]; rfl) hsize
  have hmax : HEAP_SIZE.toNat = heapLen := rfl
  exact ⟨hholds, hholds.accepts (by omega)⟩

/-- Such a request is a sound step. -/
theorem start_step (m : Memory) {size align : BitVec 32} (hpad : szPad align firstBlock = 0)
    (hsize : size.toNat + recordSize ≤ heapLen - recordSize) :
    Guarded (fun s op => op.Sound s) HeapStep (Session.start m) (.alloc size align)
      ((Session.start m).alloc 1 size align) := by
  obtain ⟨hholds, hacc⟩ := start_holds m hpad hsize
  refine ⟨⟨fun blk hfirst => ?_, fun hnone => ?_⟩, Session.alloc_step 1 ?_⟩
  · obtain rfl := (start_onChain m).mp hfirst.1
    exact ⟨hholds, fun hne => absurd hpad hne⟩
  · exact absurd hacc (hnone firstBlock ((start_onChain m).mpr rfl))
  · rw [heapAlloc, findBlock_accept hacc]
    rfl

end B2OS.Heap
