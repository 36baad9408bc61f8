import B2OS.Kernel.HeapReach

/-!
# The Sizes of `heap_alloc` and `heap_calloc`

The sums and differences that `heap_alloc` tests are taken modulo 2^32, and so is the product
that `heap_calloc` asks for. A sum that wraps lets a request for almost all of the address
space pass, a difference that wraps lets a block pass that is shorter than its padding, and a
product that wraps gets a block for the wrapped number of bytes. On the last block, the header
of the rest may also go past the end of the heap.

## Main results

* `allocExact_iff`: on a row of blocks, the calls of `heap_alloc` that come back give room for
  the request if and only if `AllocFits` holds.
* `callocExact_iff`: the same for `heap_calloc`, whose three loops then zero what was asked for
  and nothing else.
* `sizes_iff_of_run`: both in every state that a run of sound steps reaches.
* `heapCalloc_run`: a call of `heap_calloc` that gives room is a call of `heap_alloc` and stores
  into its block.
* `calloc_wraps`: on the heap that `heap_init` leaves, the product can wrap.
-/

namespace B2OS.Heap

open ByteMemory BlockChain B2OS.Kernel

/-! ### Calls with room -/

/-- The block at `ptr` in `m'` has room for `n` bytes: they lie in the payload of the free block
of `m` that the search ends with, the header says `n`, and the header behind the bytes is inside
the heap. -/
structure Room (m : Memory) (size align : BitVec 32) (n : ℕ) (ptr : Addr) (m' : Memory) :
    Prop where
  found : ∃ fuel blk, findBlock m size align fuel firstBlock = some (some blk) ∧
    OnChain m blk ∧ isFree m blk = true ∧ blk.toNat + blockSize.toNat ≤ ptr.toNat ∧
    ptr.toNat + n ≤ blk.toNat + blockSize.toNat + (sz m blk).toNat
  length : (sz m' (ptr - blockSize)).toNat = n
  rest : (next m' (ptr - blockSize)).toNat = ptr.toNat + n
  inHeap : ptr.toNat + n + blockSize.toNat ≤ HEAP_START.toNat + HEAP_SIZE.toNat

/-- A call of `heap_alloc` that comes back gives room for `size` bytes. -/
def AllocExact (m : Memory) (size align : BitVec 32) : Prop :=
  ∀ fuel ptr m', heapAlloc fuel size align m = some (some (ptr, m')) →
    Room m size align size.toNat ptr m'

/-- A call of `heap_calloc` that comes back gives room for the product, has zeroed these bytes,
and has changed no others since its call of `heap_alloc`. -/
def CallocExact (m : Memory) (itemN itemSz align : BitVec 32) : Prop :=
  ∀ fuel ptr m', heapCalloc fuel itemN itemSz align m = some (some (ptr, m')) →
    ∃ m₁, heapAlloc fuel (itemN * itemSz) align m = some (some (ptr, m₁)) ∧
      Room m (itemN * itemSz) align (itemN.toNat * itemSz.toNat) ptr m₁ ∧
      ∀ x : Addr, m' x =
        if ptr.toNat ≤ x.toNat ∧ x.toNat < ptr.toNat + itemN.toNat * itemSz.toNat then 0
        else m₁ x

/-- For the first block that passes the tests, neither `sz + sizeof(Block)` nor
`blk->sz - sz_pad` wraps, and it holds a header too if it is the last one; and nothing is found
past the end of the chain. -/
def AllocFits (m : Memory) (size align : BitVec 32) : Prop :=
  (∀ blk, First m size align blk → size.toNat + blockSize.toNat < 2 ^ 32 ∧
    (szPad align blk).toNat ≤ (sz m blk).toNat ∧
    (next m blk = 0 →
      (szPad align blk).toNat + size.toNat + blockSize.toNat ≤ (sz m blk).toNat)) ∧
    NullSafe m size align

/-- The request for the product fits; and where the product wraps, no block passes the tests for
what it wraps to. -/
def CallocFits (m : Memory) (itemN itemSz align : BitVec 32) : Prop :=
  AllocFits m (itemN * itemSz) align ∧ (2 ^ 32 ≤ itemN.toNat * itemSz.toNat →
    ∀ blk, OnChain m blk → ¬ Accepts m (itemN * itemSz) align blk)

section Calls

variable {m m' : Memory} {size align : BitVec 32} {bs : List (Block Request)}
variable {blk ptr : Addr} {n fuel : ℕ}

theorem Room.lt (h : Room m size align n ptr m') : n < 2 ^ 32 := by
  rw [← h.length]
  exact BitVec.isLt _

theorem heapAlloc_of_found (h : findBlock m size align fuel firstBlock = some (some blk)) :
    heapAlloc fuel size align m = some (some (takeBlock m size align blk)) := by
  rw [heapAlloc, h, Option.map_some, Option.map_some]

/-- The header that a cut leaves. -/
theorem cutBlock_header (m : Memory) (p : Addr) (size : BitVec 32)
    (hp : p.toNat + blockSize.toNat + size.toNat + blockSize.toNat ≤ 2 ^ 32) :
    (headerToPtr p).toNat = p.toNat + blockSize.toNat ∧
      (sz (cutBlock m p size) p).toNat = size.toNat ∧
      (next (cutBlock m p size) p).toNat = p.toNat + blockSize.toNat + size.toNat := by
  have hblock : blockSize.toNat = recordSize := rfl
  have hpos : 0 < recordSize := Nat.succ_pos _
  have hptr : (headerToPtr p).toNat = p.toNat + blockSize.toNat := by
    rw [headerToPtr, BitVec.toNat_add, Nat.mod_eq_of_lt (by omega)]
  have hq : (headerToPtr p + size).toNat = p.toNat + blockSize.toNat + size.toNat := by
    rw [BitVec.toNat_add, hptr, Nat.mod_eq_of_lt (by omega)]
  have hfits : Fits p := by
    rw [Fits]
    omega
  have hqfits : Fits (headerToPtr p + size) := by
    rw [Fits]
    omega
  have hfst := (cutBlock_edit (m := m) hfits hqfits (.inl (by omega))).fst
  rw [bHeader.at_toNat] at hfst
  exact ⟨hptr, congrArg Hdr.len hfst, (congrArg Hdr.next hfst).trans hq⟩

/-- A block of the chain ends with the heap if it is the last one, and before another header if
it is not. -/
theorem block_end (hf : Forward bHeader heapArena m bs) (hon : OnChain m blk) :
    (next m blk = 0 → blk.toNat + blockSize.toNat + (sz m blk).toNat =
        HEAP_START.toNat + HEAP_SIZE.toNat) ∧
      (next m blk ≠ 0 → blk.toNat + blockSize.toNat + (sz m blk).toNat + blockSize.toNat ≤
        HEAP_START.toNat + HEAP_SIZE.toNat) := by
  obtain ⟨pre, b, post, rfl, hp⟩ := mem_places_iff.mp ((onChain_iff hf).mp hon)
  obtain ⟨-, hlen, -⟩ := row_header hf hp
  have hspan := hf.span
  have hblock : blockSize.toNat = recordSize := rfl
  have hstart : HEAP_START.toNat = heapLo := rfl
  have hsize : HEAP_SIZE.toNat = heapArena.size := rfl
  rw [ne_eq, next_eq_zero_iff hf hp, hp, hlen, hblock, hstart, hsize, ← hspan]
  rw [span_append, span_cons]
  cases post with
  | nil =>
      rw [span_nil]
      exact ⟨fun _ => by omega, fun hne => absurd rfl hne⟩
  | cons c post =>
      rw [span_cons]
      exact ⟨fun hnil => absurd hnil (List.cons_ne_nil c post), fun _ => by omega⟩

/-- The second test where `blk->sz - sz_pad` does not wrap. -/
theorem pad_room (hpad : (szPad align blk).toNat ≤ (sz m blk).toNat)
    (hroom : size.toNat ≤ (sz m blk).toNat) (h : ¬ PadMisses m size align blk) :
    (szPad align blk).toNat + size.toNat ≤ (sz m blk).toNat := by
  have hzero : (0 : BitVec 32).toNat = 0 := rfl
  by_cases hne : szPad align blk = 0
  · rw [hne, hzero]
    omega
  · have hle := BitVec.not_lt.mp fun hlt => h ⟨hne, hlt⟩
    rw [BitVec.le_def, BitVec.toNat_sub] at hle
    omega

/-- Calls that fit give room. -/
theorem AllocFits.exact (hf : Forward bHeader heapArena m bs) (h : AllocFits m size align) :
    AllocExact m size align := by
  intro fuel ptr m' hcall
  obtain ⟨blk, hfind, htake⟩ := heapAlloc_found hcall
  have hfirst := found_first hf h.2 hfind
  obtain ⟨hsum, hpad, hlast⟩ := h.1 blk hfirst
  obtain ⟨hon, ⟨hroom, hmiss⟩, -⟩ := hfirst
  obtain ⟨hfree, hlen⟩ := (not_tooSmall_of_lt hsum).mp hroom
  have hpayload := pad_room hpad (by omega) hmiss
  obtain ⟨hlastEnd, hnextEnd⟩ := block_end hf hon
  have hend : blk.toNat + blockSize.toNat + (szPad align blk).toNat + size.toNat +
      blockSize.toNat ≤ HEAP_START.toNat + HEAP_SIZE.toNat := by
    by_cases hnext : next m blk = 0
    · have hle := hlast hnext
      have heq := hlastEnd hnext
      omega
    · have hle := hnextEnd hnext
      omega
  have htop : HEAP_START.toNat + HEAP_SIZE.toNat < 2 ^ 32 := by decide
  have hmoved : (blk + szPad align blk).toNat = blk.toNat + (szPad align blk).toNat := by
    rw [BitVec.toNat_add, Nat.mod_eq_of_lt (by omega)]
  obtain ⟨rfl, rfl⟩ := Prod.mk.inj htake
  have hback : headerToPtr (blk + szPad align blk) - blockSize = blk + szPad align blk :=
    BitVec.add_sub_cancel _ _
  obtain ⟨hptr, hsz, hnext⟩ := cutBlock_header
    (if szPad align blk ≠ 0 then moveBlock m blk (szPad align blk) else m)
    (blk + szPad align blk) size (by omega)
  refine ⟨⟨fuel, blk, hfind, hon, hfree, by omega, by omega⟩, ?_, ?_, by omega⟩
  · rw [hback]
    exact hsz
  · rw [hback, hptr]
    exact hnext

/-- Calls that give room fit. -/
theorem AllocExact.fits (hf : Forward bHeader heapArena m bs) (h : AllocExact m size align) :
    AllocFits m size align := by
  have hzero : (0 : BitVec 32).toNat = 0 := rfl
  refine ⟨fun blk hfirst => ?_, fun hnone p hon hlast => ?_⟩
  · obtain ⟨fuel, hfind⟩ := hfirst.found hf
    obtain ⟨⟨fuel', blk', hfind', hon, -, hlo, hhi⟩, -, -, hin⟩ :=
      h fuel (headerToPtr (blk + szPad align blk)) _ (heapAlloc_of_found hfind)
    obtain rfl := Option.some.inj (findBlock_unique hfind hfind')
    obtain ⟨hlastEnd, hnextEnd⟩ := block_end hf hon
    have hptr : (headerToPtr (blk + szPad align blk)).toNat =
        (blk.toNat + (szPad align blk).toNat + blockSize.toNat) % 2 ^ 32 := by
      rw [headerToPtr, BitVec.toNat_add, BitVec.toNat_add, Nat.mod_add_mod]
    have hpad := (szPad align blk).isLt
    have hblk := blk.isLt
    have hblock : blockSize.toNat = 16 := rfl
    have htop : HEAP_START.toNat + HEAP_SIZE.toNat < 2 ^ 31 := by decide
    have hsz : blk.toNat + blockSize.toNat + (sz m blk).toNat ≤
        HEAP_START.toNat + HEAP_SIZE.toNat := by
      by_cases hnext : next m blk = 0
      · exact (hlastEnd hnext).le
      · have hle := hnextEnd hnext
        omega
    -- the padding does not take the pointer around the address space
    have hnowrap : (headerToPtr (blk + szPad align blk)).toNat =
        blk.toNat + (szPad align blk).toNat + blockSize.toNat := by omega
    refine ⟨by omega, by omega, fun hnext => ?_⟩
    have heq := hlastEnd hnext
    omega
  · by_cases hsmall : TooSmall m size p
    · exact .inl hsmall
    · refine .inr fun fuel blk hfind => ?_
      have hmono := findBlock_mono bs.length hfind
      rw [Nat.add_comm] at hmono
      have hfound := (search_null hf hnone hon hlast hsmall fuel).trans hfind
      obtain ⟨⟨fuel', blk', hfind', hon', -⟩, -⟩ := h _ _ _ (heapAlloc_of_found hfound)
      obtain rfl := Option.some.inj (findBlock_unique hfound hfind')
      exact hnone blk hon' (findBlock_accepts hfind)

theorem allocExact_iff (hf : Forward bHeader heapArena m bs) (size align : BitVec 32) :
    AllocExact m size align ↔ AllocFits m size align :=
  ⟨fun h => h.fits hf, fun h => h.exact hf⟩

end Calls

/-! ### The loops of `heap_calloc` -/

section Zero

variable {m : Memory} {ptr : Addr} {n : ℕ}

/-- Zero stores into the `n` bytes from `ptr` on. -/
def zeroBytes (ptr : Addr) (n : ℕ) : Memory → Memory :=
  forUpTo (fun i m => store8 m (ptr + BitVec.ofNat 32 i) 0) n

theorem zeroBytes_add (ptr : Addr) (n k : ℕ) (m : Memory) :
    zeroBytes ptr (n + k) m = zeroBytes (ptr + BitVec.ofNat 32 n) k (zeroBytes ptr n m) := by
  rw [zeroBytes, forUpTo_add]
  simp only [BitVec.ofNat_add, ← add_assoc]
  rfl

/-- A loop over items stores into each of their bytes. -/
theorem zeroItems_eq {width : ℕ} {store : Memory → Addr → Memory}
    (hstore : ∀ m a, store m a = zeroBytes a width m) (items : BitVec 32) (m : Memory) :
    zeroItems width store ptr items m = zeroBytes ptr (width * items.toNat) m := by
  rw [zeroItems]
  generalize items.toNat = k
  induction k with
  | zero => rfl
  | succ k ih => rw [forUpTo, ih, hstore, Nat.mul_succ, zeroBytes_add]

theorem store8_zero (m : Memory) (a : Addr) : store8 m a 0 = zeroBytes a 1 m := by
  simp [zeroBytes, forUpTo]

theorem store16_zero (m : Memory) (a : Addr) : store16 m a 0 = zeroBytes a 2 m := by
  simp [store16, zeroBytes, forUpTo]

theorem store32_zero (m : Memory) (a : Addr) : store32 m a 0 = zeroBytes a 4 m := by
  simp [store32, zeroBytes, forUpTo]

/-- What the stores leave, where they do not wrap around the address space. -/
theorem zeroBytes_apply (h : ptr.toNat + n ≤ 2 ^ 32) (m : Memory) (x : Addr) :
    zeroBytes ptr n m x =
      if ptr.toNat ≤ x.toNat ∧ x.toNat < ptr.toNat + n then 0 else m x := by
  induction n with
  | zero =>
      rw [if_neg (by omega)]
      rfl
  | succ n ih =>
      have haddr := toNat_add_lt (k := n) h (by omega)
      change store8 (zeroBytes ptr n m) (ptr + BitVec.ofNat 32 n) 0 x = _
      by_cases hx : x = ptr + BitVec.ofNat 32 n
      · rw [hx, store8_self, haddr, if_pos (by omega)]
      · have hne : x.toNat ≠ ptr.toNat + n := fun heq =>
          hx (BitVec.eq_of_toNat_eq (heq.trans haddr.symm))
        rw [store8_of_ne hx, ih (by omega)]
        split_ifs <;> first | rfl | omega

theorem zeroBytes_changedOnly (h : ptr.toNat + n ≤ 2 ^ 32) (m : Memory) :
    ChangedOnly m (zeroBytes ptr n m) ptr.toNat (ptr.toNat + n) := by
  intro x hx
  rw [zeroBytes_apply h, if_neg (by omega)]

/-- The stores are steps of the client that holds the block. -/
theorem zeroBytes_run {s : Session} {t : Request} (hlive : s.live ptr.toNat = some t)
    (hroom : n ≤ (sz s.mem (ptr - blockSize)).toNat) (hlo : blockSize.toNat ≤ ptr.toNat)
    (hhi : ptr.toNat + n ≤ 2 ^ 32) :
    Run (Guarded (fun s op => op.Sound s) HeapStep) s
      ((List.range n).map fun i => .store ptr i 0) ⟨zeroBytes ptr n s.mem, s.live⟩ := by
  induction n with
  | zero => exact .nil s
  | succ n ih =>
      rw [List.range_succ, List.map_append]
      refine (ih (by omega) (by omega)).concat ⟨trivial, .store hlive ?_⟩
      have hheader : (ptr - blockSize).toNat + recordSize = ptr.toNat := by
        have hblock : blockSize.toNat = recordSize := rfl
        rw [BitVec.toNat_sub_of_le hlo, hblock]
        exact Nat.sub_add_cancel hlo
      have hsame : sz (zeroBytes ptr n s.mem) (ptr - blockSize) = sz s.mem (ptr - blockSize) :=
        congrArg Record.word2 ((zeroBytes_changedOnly (by omega) s.mem).record_eq
          (hheader.le.trans ptr.isLt.le) (.inl hheader.le))
      rw [hsame]
      omega

end Zero

/-! ### `heap_calloc` -/

section Calloc

variable {m m' : Memory} {itemN itemSz align : BitVec 32} {bs : List (Block Request)}
variable {ptr : Addr} {fuel : ℕ}

/-- The call of `heap_alloc` behind a call of `heap_calloc`, and the bytes that are zeroed where
the product does not wrap. -/
theorem heapCalloc_cases (h : heapCalloc fuel itemN itemSz align m = some (some (ptr, m'))) :
    ∃ m₁, heapAlloc fuel (itemN * itemSz) align m = some (some (ptr, m₁)) ∧
      (itemN.toNat * itemSz.toNat < 2 ^ 32 →
        m' = zeroBytes ptr (itemN.toNat * itemSz.toNat) m₁) := by
  obtain ⟨found, hcall, hmap⟩ := Option.map_eq_some_iff.mp h
  obtain ⟨⟨ptr₁, m₁⟩, rfl, hzero⟩ := Option.map_eq_some_iff.mp hmap
  obtain ⟨rfl, rfl⟩ := Prod.mk.inj hzero
  refine ⟨m₁, hcall, fun hprod => ?_⟩
  split_ifs with h2 h4
  · rw [zeroItems_eq store16_zero, h2, Nat.mul_comm]
    rfl
  · rw [zeroItems_eq store32_zero, h4, Nat.mul_comm]
    rfl
  · rw [zeroItems_eq store8_zero, Nat.one_mul, BitVec.toNat_mul, Nat.mod_eq_of_lt hprod]

theorem heapCalloc_of_alloc {m₁ : Memory}
    (h : heapAlloc fuel (itemN * itemSz) align m = some (some (ptr, m₁))) :
    ∃ m', heapCalloc fuel itemN itemSz align m = some (some (ptr, m')) := by
  rw [heapCalloc, h, Option.map_some, Option.map_some]
  exact ⟨_, rfl⟩

/-- Calls that fit give room and zero it. -/
theorem CallocFits.exact (hf : Forward bHeader heapArena m bs)
    (h : CallocFits m itemN itemSz align) : CallocExact m itemN itemSz align := by
  obtain ⟨hfits, hwrap⟩ := h
  intro fuel ptr m' hcall
  obtain ⟨m₁, halloc, hzero⟩ := heapCalloc_cases hcall
  have hroom := hfits.exact hf fuel ptr m₁ halloc
  obtain ⟨fuel', blk, hfind, hon, -⟩ := hroom.found
  have hprod : itemN.toNat * itemSz.toNat < 2 ^ 32 :=
    not_le.mp fun hle => hwrap hle blk hon (findBlock_accepts hfind)
  rw [BitVec.toNat_mul, Nat.mod_eq_of_lt hprod] at hroom
  have htop : HEAP_START.toNat + HEAP_SIZE.toNat < 2 ^ 32 := by decide
  have hend := hroom.inHeap
  refine ⟨m₁, halloc, hroom, fun x => ?_⟩
  rw [hzero hprod, zeroBytes_apply (by omega)]

/-- Calls that give room and zero it fit. -/
theorem CallocExact.fits (hf : Forward bHeader heapArena m bs)
    (h : CallocExact m itemN itemSz align) : CallocFits m itemN itemSz align := by
  have hroom : ∀ fuel ptr m₁, heapAlloc fuel (itemN * itemSz) align m = some (some (ptr, m₁)) →
      itemN.toNat * itemSz.toNat < 2 ^ 32 ∧
        Room m (itemN * itemSz) align (itemN.toNat * itemSz.toNat) ptr m₁ := by
    intro fuel ptr m₁ halloc
    obtain ⟨m', hcall⟩ := heapCalloc_of_alloc halloc
    obtain ⟨m₁', halloc', hroom, -⟩ := h fuel ptr m' hcall
    obtain rfl : m₁' = m₁ :=
      (Prod.mk.inj (Option.some.inj (Option.some.inj (halloc'.symm.trans halloc)))).2
    exact ⟨hroom.lt, hroom⟩
  refine ⟨AllocExact.fits hf fun fuel ptr m₁ halloc => ?_, fun hwrap blk hon hacc => ?_⟩
  · obtain ⟨hprod, hexact⟩ := hroom fuel ptr m₁ halloc
    rwa [BitVec.toNat_mul, Nat.mod_eq_of_lt hprod]
  · rcases first_or_none hf (itemN * itemSz) align with ⟨c, hfirst⟩ | hnone
    · obtain ⟨fuel, hfind⟩ := hfirst.found hf
      exact absurd (hroom fuel _ _ (heapAlloc_of_found hfind)).1 (not_lt.mpr hwrap)
    · exact hnone blk hon hacc

theorem callocExact_iff (hf : Forward bHeader heapArena m bs)
    (itemN itemSz align : BitVec 32) :
    CallocExact m itemN itemSz align ↔ CallocFits m itemN itemSz align :=
  ⟨fun h => h.fits hf, fun h => h.exact hf⟩

/-- A call of `heap_calloc` that gives room takes the steps of a client that calls `heap_alloc`
and stores into its block. -/
theorem heapCalloc_run {s : Session} (hsound : (HeapOp.alloc (itemN * itemSz) align).Sound s)
    (hexact : CallocExact s.mem itemN itemSz align)
    (hcall : heapCalloc fuel itemN itemSz align s.mem = some (some (ptr, m'))) :
    Run (Guarded (fun s op => op.Sound s) HeapStep) s
      (.alloc (itemN * itemSz) align ::
        (List.range (itemN.toNat * itemSz.toNat)).map fun i => .store ptr i 0)
      ⟨m', Function.update s.live ptr.toNat (some ⟨(itemN * itemSz).toNat, align.toNat⟩)⟩ := by
  obtain ⟨m₁, halloc, hroom, -⟩ := hexact fuel ptr m' hcall
  obtain ⟨m₁', halloc', hzero⟩ := heapCalloc_cases hcall
  obtain rfl : m₁' = m₁ :=
    (Prod.mk.inj (Option.some.inj (Option.some.inj (halloc'.symm.trans halloc)))).2
  have htop : HEAP_START.toNat + HEAP_SIZE.toNat < 2 ^ 32 := by decide
  have hend := hroom.inHeap
  obtain ⟨-, blk, -, -, -, hlo, -⟩ := hroom.found
  rw [hzero hroom.lt]
  exact .cons ⟨hsound, .alloc halloc⟩
    (zeroBytes_run (Function.update_self ..) hroom.length.ge (by omega) (by omega))

end Calloc

/-- **The sizes of `heap_alloc` and `heap_calloc`.** In every state that a run of sound steps
reaches, their calls give room for the exact number of bytes, and `heap_calloc` zeroes these and
no others, if and only if the sizes fit. -/
theorem sizes_iff_of_run {m : Memory} {l : List HeapOp} {t : Session}
    (h : Run (Guarded (fun s op => op.Sound s) HeapStep) (Session.start m) l t)
    (align : BitVec 32) :
    (∀ size, AllocExact t.mem size align ↔ AllocFits t.mem size align) ∧
      ∀ itemN itemSz, CallocExact t.mem itemN itemSz align ↔
        CallocFits t.mem itemN itemSz align := by
  obtain ⟨bs, hl⟩ := rowLayout_of_run h
  exact ⟨fun size => allocExact_iff hl.forward size align,
    fun itemN itemSz => callocExact_iff hl.forward itemN itemSz align⟩

/-- The sizes after a call for 64 aligned bytes. -/
theorem sizes_iff_after_alloc :
    (∀ size, AllocExact ((Session.start fun _ => 0).alloc 1 64 16).mem size 16 ↔
        AllocFits ((Session.start fun _ => 0).alloc 1 64 16).mem size 16) ∧
      ∀ itemN itemSz,
        CallocExact ((Session.start fun _ => 0).alloc 1 64 16).mem itemN itemSz 16 ↔
          CallocFits ((Session.start fun _ => 0).alloc 1 64 16).mem itemN itemSz 16 :=
  sizes_iff_of_run (m := fun _ => 0) (l := [.alloc 64 16])
    (.cons (start_step _ (by decide) (by decide)) (.nil _)) 16

/-- A call for 2^31 + 1 items of two bytes gets a block of two bytes. -/
theorem calloc_wraps :
    ¬ ∀ (m : Memory) (l : List HeapOp) (t : Session),
      Run (Guarded (fun _ op => op.InRange) HeapStep) (Session.start m) l t →
        ∀ align, (∀ size, AllocExact t.mem size align) ∧
          ∀ itemN itemSz, CallocExact t.mem itemN itemSz align := by
  intro h
  obtain ⟨-, hcalloc⟩ := h (fun _ => 0) [] _ (.nil _) 1
  obtain ⟨-, hacc⟩ := start_holds (fun _ => 0) (by decide : szPad 1 firstBlock = 0)
    (by decide : (0x80000001 * 2 : BitVec 32).toNat + recordSize ≤ heapLen - recordSize)
  obtain ⟨m', hcall⟩ := heapCalloc_of_alloc (heapAlloc_of_found (findBlock_accept hacc 0))
  obtain ⟨m₁, -, hroom, -⟩ := hcalloc _ _ _ _ m' hcall
  exact absurd hroom.lt (by decide)

end B2OS.Heap
