import B2OS.Kernel.HeapInv

/-!
# Runs of the Heap

A `Session` is the memory of `Src/memory/heap.c` with the pointers that its clients hold.
From the chain that `heap_init` leaves it takes steps: a call of `heap_alloc` that comes
back, a call of `heap_free`, or a store of a client into one of its blocks.

`heap_alloc` keeps the chain when `FitsLast` holds: the block that it takes is the last one,
it is not the first one if it has to move, and padding, payload and the new header fit into
it. Elsewhere it leaves a back link stale, loses the first block, or writes the new header
past the end of the block.

## Main results

* `HeapStep.layout`: a step that fits keeps the layout.
* `chainIntegrity_of_run`: the chain covers the heap, and the live payloads are aligned, in
  the heap and apart.
* `chain_coalesced_of_run`: with no padding, no two neighbours are free, and a heap without
  live pointers is one free block.
-/

namespace B2OS.Heap

open ByteMemory BlockChain B2OS.Kernel

/-! ### The functions on a heap with owners -/

/-- The invariant of the heap: the blocks `bs` tile the region, those in use belong to the
live pointers, and they are as long and as aligned as they were asked for. -/
structure Layout (m : Memory) (live : ℕ → Option Request) (bs : List (Block Request)) :
    Prop where
  tiling : Tiling bHeader heapArena m bs
  owned : Owned live (payloads recordSize heapLo bs)
  sized : ∀ x ∈ payloads recordSize heapLo bs, x.tag.size ≤ x.len ∧ x.tag.align ∣ x.addr
  coalesced : Coalesced bs

theorem next_toNat (m : Memory) (p : Addr) :
    (next m p).toNat = (bHeader.hdr (record m p)).next := rfl

/-- The blocks that a walk along `next` from `first_block` meets. -/
abbrev OnChain (m : Memory) : Addr → Prop := Walk (next m) firstBlock

/-- The block that `heap_alloc` takes is the last one of the chain, has a predecessor if it
has to move, and holds the padding, the payload and one header. -/
def FitsLast (m : Memory) (size align : BitVec 32) : Prop :=
  ∀ fuel blk, findBlock m size align fuel firstBlock = some (some blk) →
    OnChain m blk ∧ next m blk = 0 ∧ (szPad align blk ≠ 0 → blk ≠ firstBlock) ∧
      (szPad align blk).toNat + size.toNat + blockSize.toNat ≤ (sz m blk).toNat

/-- The search ends at a free block only. -/
theorem findBlock_free {m : Memory} {size align : BitVec 32} {blk : Addr} :
    ∀ {fuel : ℕ} {p : Addr}, findBlock m size align fuel p = some (some blk) →
      isFree m blk = true := by
  intro fuel
  induction fuel with
  | zero =>
      intro p h
      cases h
  | succ fuel ih =>
      intro p h
      rw [findBlock] at h
      split_ifs at h with hskip hnull hpad
      · cases h
      · exact ih h
      · exact ih h
      · obtain rfl := Option.some.inj (Option.some.inj h)
        simpa using (not_or.mp hskip).1

/-- The padding leads to a multiple of the alignment. -/
theorem szPad_spec {align : BitVec 32} {p : Addr} {n : ℕ} (halign : 0 < align.toNat)
    (hn : (headerToPtr p).toNat = n) : align.toNat ∣ n + (szPad align p).toNat := by
  have hmod : (headerToPtr p % align).toNat = n % align.toNat := by
    rw [BitVec.toNat_umod, hn]
  rw [szPad]
  split_ifs with hpad
  · have hlt := Nat.mod_lt n halign
    have hsub : (align - headerToPtr p % align).toNat = align.toNat - n % align.toNat := by
      rw [BitVec.toNat_sub, hmod]
      have h32 := align.isLt
      have hpos : 0 < n % align.toNat := by
        rw [← hmod]
        exact Nat.pos_of_ne_zero fun h0 => hpad (BitVec.eq_of_toNat_eq h0)
      omega
    have hdiv := Nat.div_add_mod n align.toNat
    refine ⟨n / align.toNat + 1, ?_⟩
    rw [hsub, Nat.mul_add, Nat.mul_one]
    omega
  · rw [not_not] at hpad
    rw [hpad] at hmod
    exact Nat.dvd_of_mod_eq_zero hmod.symm

section Layout

variable {m m' : Memory} {live : ℕ → Option Request} {bs : List (Block Request)}

theorem Layout.ne_nil (hl : Layout m live bs) : bs ≠ [] := by
  rintro rfl
  have hspan : 0 = heapLen := hl.tiling.span
  cases hspan

theorem Layout.walk_iff (hl : Layout m live bs) {p : Addr} :
    OnChain m p ↔ ∃ pre b post, bs = pre ++ b :: post ∧
      p.toNat = heapLo + span recordSize pre :=
  hl.tiling.walk_iff (next_toNat m) rfl hl.ne_nil

theorem Layout.live_zero (hl : Layout m live bs) : live 0 = none :=
  Owned.live_zero (A := heapArena) hl.owned

/-- The header of a live pointer. -/
theorem entry_toNat {ptr : Addr} {a : ℕ} (h : ptr.toNat = heapLo + a + recordSize) :
    (ptr - blockSize).toNat = heapLo + a :=
  toNat_sub_record rfl h

/-- `heap_free` of a live pointer gives its block back. -/
theorem Layout.free (hl : Layout m live bs) {ptr : Addr} {t : Request}
    (hlive : live ptr.toNat = some t) :
    ∃ bs', Layout (heapFree ptr m) (Function.update live ptr.toNat none) bs' := by
  obtain ⟨pre, b, post, rfl, htag, haddr, -⟩ := Owned.block (A := heapArena) hl.owned hlive
  have hne : ptr ≠ 0 := by
    rintro rfl
    rw [show (0 : Addr).toNat = 0 from rfl, hl.live_zero] at hlive
    cases hlive
  obtain ⟨bs', htiling, hpay, hco⟩ := heapFree_tiling hl.tiling hne (entry_toNat haddr)
  have howned := hl.owned
  have hsized := hl.sized
  rw [payloads_append, payloads, htag] at howned hsized
  refine ⟨bs', htiling, ?_, ?_, hco hl.coalesced⟩
  · rw [hpay, haddr]
    exact howned.release (payload_ne (by decide))
  · rw [hpay]
    intro x hx
    refine hsized x ?_
    rcases List.mem_append.mp hx with hx | hx
    · exact List.mem_append_left _ hx
    · exact List.mem_append_right _ (List.mem_append_right _ hx)

/-- Stores into a payload in use keep the layout. -/
theorem Layout.write (hl : Layout m live bs) {x : Payload Request}
    (hx : x ∈ payloads recordSize heapLo bs)
    (hch : ChangedOnly m m' x.addr (x.addr + x.len)) : Layout m' live bs where
  tiling := hl.tiling.changedOnly hx hch
  owned := hl.owned
  sized := hl.sized
  coalesced := hl.coalesced

/-- What the memory shows of a live pointer: a header in use on the chain, and a payload in
the heap that is as long and as aligned as it was asked for. -/
theorem Layout.entry (hl : Layout m live bs) {ptr : Addr} {t : Request}
    (hlive : live ptr.toNat = some t) :
    OnChain m (ptr - blockSize) ∧ isFree m (ptr - blockSize) = false ∧
      heapLo + recordSize ≤ ptr.toNat ∧
      ptr.toNat + (sz m (ptr - blockSize)).toNat ≤ heapLo + heapLen ∧
      t.size ≤ (sz m (ptr - blockSize)).toNat ∧ t.align ∣ ptr.toNat ∧
      ⟨ptr.toNat, (sz m (ptr - blockSize)).toNat, t⟩ ∈ payloads recordSize heapLo bs := by
  obtain ⟨pre, b, post, rfl, htag, haddr, hmem⟩ := Owned.block (A := heapArena) hl.owned hlive
  obtain ⟨-, -, hlen, hfree⟩ := header hl.tiling (entry_toNat haddr)
  obtain ⟨hsize, halign⟩ := hl.sized _ hmem
  have hbounds := payload_bounds hmem
  have hspan : span recordSize (pre ++ b :: post) = heapLen := hl.tiling.span
  rw [hspan] at hbounds
  rw [hlen]
  exact ⟨hl.walk_iff.mpr ⟨pre, b, post, rfl, entry_toNat haddr⟩, by rw [hfree, htag]; rfl,
    hbounds.1, hbounds.2, hsize, halign, hmem⟩

/-- The layout up to a free last block, which a call of `heap_alloc` cuts. -/
theorem Layout.cut {pre : List (Block Request)} {b : Block Request}
    (ht : Tiling bHeader heapArena m (pre ++ [b]))
    (ho : Owned live (payloads recordSize heapLo pre))
    (hsized : ∀ x ∈ payloads recordSize heapLo pre, x.tag.size ≤ x.len ∧ x.tag.align ∣ x.addr)
    (hco : Coalesced (pre ++ [b])) (hfree : b.tag = none) {p : Addr} {size : BitVec 32}
    {align : ℕ} (hp : p.toNat = heapLo + span recordSize pre)
    (hroom : size.toNat + recordSize ≤ b.len) (halign : align ∣ p.toNat + recordSize) :
    live (headerToPtr p).toNat = none ∧
      ∃ bs', Layout (cutBlock m p size)
        (Function.update live (headerToPtr p).toNat (some ⟨size.toNat, align⟩)) bs' := by
  have hptr : (headerToPtr p).toNat = heapLo + span recordSize pre + recordSize := by
    obtain ⟨htop, -⟩ := ht.bounds hp
    have hblock : blockSize.toNat = 16 := rfl
    rw [headerToPtr, BitVec.toNat_add, hblock, hp]
    simp only [heapArena, heapLo, heapLen, recordSize, span_nil] at *
    omega
  have hnew : ∀ y ∈ payloads recordSize heapLo pre, y.addr ≠ (headerToPtr p).toNat := by
    intro y hy
    have hbounds := payload_bounds hy
    rw [hptr]
    simp only [recordSize] at *
    omega
  refine ⟨?_, _, cutBlock_tiling ht hp hroom ⟨size.toNat, align⟩, ?_, ?_, ?_⟩
  · cases hx : live (headerToPtr p).toNat with
    | none => rfl
    | some t =>
        obtain ⟨len, hmem⟩ := (ho _ _).mp hx
        exact absurd rfl (hnew _ hmem)
  · rw [payloads_append, payloads, payloads, payloads, ← hptr]
    exact Owned.alloc (by simpa using ho) (by simpa using hnew)
  · intro x hx
    rw [List.append_cons, mem_payloads_concat, mem_payloads_concat] at hx
    rcases hx with (hx | ⟨htag, haddr, hlen⟩) | ⟨htag, -⟩
    · exact hsized x hx
    · rw [← Option.some.inj htag]
      exact ⟨hlen.ge, by rwa [haddr, ← hp]⟩
    · cases htag
  · exact hco.replace_last hfree ⟨.inl rfl, trivial⟩

/-- The block that the search finds is free and the last one, and padding, payload and
header fit into it. -/
theorem Layout.found (hl : Layout m live bs) {size align : BitVec 32} {fuel : ℕ} {blk : Addr}
    (hfit : FitsLast m size align)
    (hfind : findBlock m size align fuel firstBlock = some (some blk)) :
    ∃ pre b, bs = pre ++ [b] ∧ b.tag = none ∧ blk.toNat = heapLo + span recordSize pre ∧
      (szPad align blk ≠ 0 → pre ≠ []) ∧
      (szPad align blk).toNat + size.toNat + recordSize ≤ b.len ∧
      blk.toNat + recordSize + b.len = heapLo + heapLen := by
  obtain ⟨hwalk, hnull, hfirst, hroom⟩ := hfit fuel blk hfind
  obtain ⟨pre, b, post, rfl, hp⟩ := hl.walk_iff.mp hwalk
  obtain ⟨-, hnext, hlen, hfree⟩ := header hl.tiling hp
  obtain ⟨htop, -⟩ := hl.tiling.bounds hp
  have hpost : post = [] := by
    cases post with
    | nil => rfl
    | cons c post =>
        rw [hnull, link_cons, recordSize] at hnext
        have hnat : (0 : Addr).toNat = 0 := rfl
        omega
  subst hpost
  have hblock : blockSize.toNat = recordSize := rfl
  rw [hlen, hblock] at hroom
  refine ⟨pre, b, rfl, ?_, hp, fun hpad => ?_, hroom, htop⟩
  · rw [findBlock_free hfind] at hfree
    simpa using hfree.symm
  · rintro rfl
    exact hfirst hpad (BitVec.eq_of_toNat_eq hp)

/-- A pointer of `heap_alloc` comes from a block that the search found. -/
theorem heapAlloc_found {size align : BitVec 32} {fuel : ℕ} {ptr : Addr}
    (h : heapAlloc fuel size align m = some (some (ptr, m'))) :
    ∃ blk, findBlock m size align fuel firstBlock = some (some blk) ∧
      takeBlock m size align blk = (ptr, m') := by
  obtain ⟨found, hfind, hmap⟩ := Option.map_eq_some_iff.mp h
  obtain ⟨blk, rfl, hblk⟩ := Option.map_eq_some_iff.mp hmap
  exact ⟨blk, hfind, hblk⟩

/-- A call of `heap_alloc` that comes back gives a new pointer, when the block fits. -/
theorem Layout.alloc (hl : Layout m live bs) {size align : BitVec 32} {fuel : ℕ}
    {ptr : Addr} (halign : 0 < align.toNat) (hfit : FitsLast m size align)
    (h : heapAlloc fuel size align m = some (some (ptr, m'))) :
    live ptr.toNat = none ∧
      ∃ bs', Layout m' (Function.update live ptr.toNat
        (some ⟨size.toNat, align.toNat⟩)) bs' := by
  obtain ⟨blk, hfind, htake⟩ := heapAlloc_found h
  obtain ⟨pre, b, rfl, htag, hp, hfirst, hroom, htop⟩ := hl.found hfit hfind
  have howned := hl.owned
  have hsized := hl.sized
  rw [payloads_append, payloads_free _ _ _ htag, payloads, List.append_nil] at howned hsized
  rw [takeBlock] at htake
  obtain ⟨rfl, rfl⟩ := Prod.mk.inj htake
  have hblock : blockSize.toNat = recordSize := rfl
  have hdata : (headerToPtr blk).toNat = blk.toNat + recordSize := by
    rw [headerToPtr, BitVec.toNat_add, hblock]
    simp only [heapLo, heapLen, recordSize] at *
    omega
  have hmultiple := szPad_spec halign hdata
  by_cases hpad : szPad align blk = 0
  · have hsame : blk + szPad align blk = blk := by
      rw [hpad]
      exact BitVec.add_zero blk
    have hnat : (szPad align blk).toNat = 0 := by rw [hpad]; rfl
    rw [hnat, Nat.add_zero] at hmultiple
    simp only [hsame, if_neg (not_not.mpr hpad)]
    exact Layout.cut hl.tiling howned hsized hl.coalesced htag hp (by omega) hmultiple
  · rcases List.eq_nil_or_concat' pre with rfl | ⟨pre, a, rfl⟩
    · exact absurd rfl (hfirst hpad)
    · have hta : Tiling bHeader heapArena m (pre ++ [a, b]) := by simpa using hl.tiling
      have hat : (blk + szPad align blk).toNat = blk.toNat + (szPad align blk).toNat := by
        rw [BitVec.toNat_add]
        simp only [heapLo, heapLen, recordSize] at *
        omega
      have hmoved : Tiling bHeader heapArena (moveBlock m blk (szPad align blk)) _ :=
        moveBlock_tiling hta hp (by omega)
      rw [List.append_cons] at hmoved
      simp only [ne_eq, hpad, not_false_eq_true, if_true]
      have hlonger : Owned live (payloads recordSize heapLo
          (pre ++ [{ a with len := a.len + (szPad align blk).toNat }]) ++ []) :=
        Owned.setLen (by rwa [List.append_nil])
      rw [List.append_nil] at hlonger
      refine Layout.cut hmoved hlonger (fun x hx => ?_) ?_ htag ?_ ?_ ?_
      · rcases mem_payloads_concat.mp hx with hx | ⟨hxtag, haddr, hxlen⟩
        · exact hsized x (mem_payloads_concat.mpr (.inl hx))
        · obtain ⟨hsize, hdvd⟩ := hsized ⟨x.addr, a.len, x.tag⟩
            (mem_payloads_concat.mpr (.inr ⟨hxtag, haddr, rfl⟩))
          rw [hxlen]
          exact ⟨hsize.trans (Nat.le_add_right _ _), hdvd⟩
      · have hused : a.tag.isSome := by
          obtain ⟨-, -, hseam⟩ := coalesced_append.mp hl.coalesced
          rcases hseam a (by simp) b (by simp) with h | h
          · exact h
          · rw [htag] at h
            cases h
        have hco : Coalesced (pre ++ { a with len := a.len + (szPad align blk).toNat } :: [b]) :=
          Coalesced.replace_used (b := a) (by simpa using hl.coalesced) hused
        rw [List.append_cons] at hco
        exact hco.replace_last htag trivial
      · rw [hat, hp]
        simp only [span_append, span_cons, span_nil]
        omega
      · simp only
        omega
      · rwa [hat, Nat.add_right_comm]

end Layout

/-! ### Sessions -/

/-- The memory, and what the live pointers were asked for. -/
structure Session where
  mem : Memory
  live : ℕ → Option Request

/-- The chain that `heap_init` leaves, with no pointer in use. -/
def Session.start (m : Memory) : Session := ⟨heapInit m, fun _ => none⟩

/-- What clients do: the calls of the allocator, and a store into byte `i` of a block. -/
inductive HeapOp
  | alloc (size align : BitVec 32)
  | free (ptr : Addr)
  | store (ptr : Addr) (i : ℕ) (value : BitVec 8)

/-- The calls give and take pointers; a store stays inside the block of its pointer. A call
of `heap_alloc` that panics does not come back and takes no step. -/
inductive HeapStep : Session → HeapOp → Session → Prop
  | alloc {s : Session} {size align : BitVec 32} {fuel : ℕ} {ptr : Addr} {m' : Memory} :
      heapAlloc fuel size align s.mem = some (some (ptr, m')) →
      HeapStep s (.alloc size align)
        ⟨m', Function.update s.live ptr.toNat (some ⟨size.toNat, align.toNat⟩)⟩
  | free {s : Session} {ptr : Addr} : ptr = 0 ∨ (∃ t, s.live ptr.toNat = some t) →
      HeapStep s (.free ptr) ⟨heapFree ptr s.mem, Function.update s.live ptr.toNat none⟩
  | store {s : Session} {ptr : Addr} {i : ℕ} {value : BitVec 8} {t : Request} :
      s.live ptr.toNat = some t → i < (sz s.mem (ptr - blockSize)).toNat →
      HeapStep s (.store ptr i value)
        ⟨store8 s.mem (ptr + BitVec.ofNat 32 i) value, s.live⟩

/-- Alignments are powers of two, sizes at most `HEAP_SIZE`. -/
def HeapOp.InRange : HeapOp → Prop
  | .alloc size align => (∃ k, align.toNat = 2 ^ k) ∧ size.toNat ≤ HEAP_SIZE.toNat
  | .free _ | .store _ _ _ => True

/-- Alignments other than `0`, which `heap_alloc` divides by. -/
def HeapOp.Aligned : HeapOp → Prop
  | .alloc _ align => align ≠ 0
  | .free _ | .store _ _ _ => True

/-- Requests without an alignment. -/
def HeapOp.Unaligned : HeapOp → Prop
  | .alloc _ align => align = 1
  | .free _ | .store _ _ _ => True

/-- The block that a call of `heap_alloc` takes fits. -/
def HeapOp.Fits (s : Session) : HeapOp → Prop
  | .alloc size align => FitsLast s.mem size align
  | .free _ | .store _ _ _ => True

/-- A call of `heap_alloc` on a session; the session stays as it is when the call does not
come back. -/
def Session.alloc (s : Session) (fuel : ℕ) (size align : BitVec 32) : Session :=
  match heapAlloc fuel size align s.mem with
  | some (some (ptr, m')) =>
      ⟨m', Function.update s.live ptr.toNat (some ⟨size.toNat, align.toNat⟩)⟩
  | _ => s

/-- A call of `heap_free` on a session. -/
def Session.free (s : Session) (ptr : Addr) : Session :=
  ⟨heapFree ptr s.mem, Function.update s.live ptr.toNat none⟩

theorem Session.alloc_step {s : Session} (fuel : ℕ) {size align : BitVec 32}
    (h : ((heapAlloc fuel size align s.mem).join).isSome) :
    HeapStep s (.alloc size align) (s.alloc fuel size align) := by
  obtain ⟨⟨ptr, m'⟩, hcall⟩ := Option.isSome_iff_exists.mp h
  have hcall' := Option.join_eq_some_iff.mp hcall
  rw [Session.alloc, hcall']
  exact .alloc hcall'

/-! ### The layout along a run -/

/-- `heap_init` writes the header of one free block. -/
theorem heapInit_record (m : Memory) :
    record (heapInit m) firstBlock = ⟨0, 0, HEAP_SIZE - blockSize, true⟩ := by
  have hfits : BlockChain.Fits firstBlock :=
    (by decide : firstBlock.toNat + recordSize ≤ 2 ^ 32)
  rw [heapInit, setBlock_self hfits]

theorem start_layout (m : Memory) :
    Layout (Session.start m).mem (Session.start m).live [⟨heapLen - recordSize, none⟩] where
  tiling := by
    refine ⟨⟨?_, trivial⟩, rfl⟩
    have hat := bHeader.at_toNat (heapInit m) firstBlock
    rw [heapInit_record] at hat
    exact hat
  owned x n := by
    constructor
    · intro h
      cases h
    · rintro ⟨_, h⟩
      cases h
  sized _ hx := by cases hx
  coalesced := trivial

theorem HeapOp.InRange.aligned {op : HeapOp} (h : op.InRange) : op.Aligned := by
  cases op with
  | alloc size align =>
      obtain ⟨⟨k, hk⟩, -⟩ := h
      exact ne_zero_of_pos (by rw [hk]; exact Nat.two_pow_pos k)
  | free _ | store _ _ _ => trivial

theorem HeapOp.Unaligned.aligned {op : HeapOp} (h : op.Unaligned) : op.Aligned := by
  cases op with
  | alloc size align =>
      rintro rfl
      exact absurd (show (0 : BitVec 32) = 1 from h) (by decide)
  | free _ | store _ _ _ => trivial

/-- A step that fits keeps the layout. -/
theorem HeapStep.layout {s t : Session} {op : HeapOp} {bs : List (Block Request)}
    (h : HeapStep s op t) (hl : Layout s.mem s.live bs) (hfit : op.Fits s)
    (hop : op.Aligned) : ∃ bs', Layout t.mem t.live bs' := by
  cases h with
  | alloc hcall =>
      exact (hl.alloc (Nat.pos_of_ne_zero fun h0 => hop (BitVec.eq_of_toNat_eq h0)) hfit hcall).2
  | @free ptr hlive =>
      rcases hlive with rfl | ⟨t, ht⟩
      · have hsame : Function.update s.live 0 none = s.live :=
          Function.update_eq_self_iff.mpr hl.live_zero.symm
        refine ⟨bs, ?_⟩
        change Layout (heapFree 0 s.mem) (Function.update s.live 0 none) bs
        rwa [hsame, heapFree, if_pos rfl]
      · exact hl.free ht
  | @store ptr i value t hlive hi =>
      obtain ⟨-, -, -, htop, -, -, hmem⟩ := hl.entry hlive
      refine ⟨bs, hl.write hmem ?_⟩
      have hstore := ChangedOnly.store8 s.mem (ptr + BitVec.ofNat 32 i) value
      rw [toNat_add_lt (a := ptr) (n := i + 1) (k := i) ?_ (by omega)] at hstore
      · exact hstore.mono (by dsimp only; omega) (by dsimp only; omega)
      · simp only [heapLo, heapLen] at htop
        omega

/-! ### Integrity of the chain and of the payloads -/

/-- The chain covers the heap: it starts at `first_block`, every block is followed by the
next one, which links back to it, and the last one ends with the heap. -/
structure Covers (m : Memory) : Prop where
  chain : ∃ bs : List (Block Request), Chain recordSize (bHeader.at m) 0 0 heapLo bs ∧
    span recordSize bs = heapLen
  first : prev m firstBlock = 0
  linked : ∀ p, OnChain m p → next m p ≠ 0 →
    (next m p).toNat = p.toNat + blockSize.toNat + (sz m p).toNat ∧ prev m (next m p) = p
  last : ∀ p, OnChain m p → next m p = 0 →
    p.toNat + blockSize.toNat + (sz m p).toNat = HEAP_START.toNat + HEAP_SIZE.toNat

/-- The bytes that the header of a pointer gives it. -/
def usable (m : Memory) (ptr : Addr) : ℕ := (sz m (ptr - blockSize)).toNat

/-- The heap is intact: the chain covers it, and every live pointer is the payload of a block
in use, aligned, inside the heap, long enough and apart from the others. -/
structure ChainIntegrity (s : Session) : Prop where
  covers : Covers s.mem
  onChain : ∀ ptr t, s.live ptr.toNat = some t →
    OnChain s.mem (ptr - blockSize) ∧ isFree s.mem (ptr - blockSize) = false
  payload : ∀ ptr t, s.live ptr.toNat = some t →
    t.align ∣ ptr.toNat ∧ t.size ≤ usable s.mem ptr ∧ HEAP_START.toNat ≤ ptr.toNat ∧
      ptr.toNat + usable s.mem ptr ≤ HEAP_START.toNat + HEAP_SIZE.toNat
  disjoint : ∀ ptr q t t', s.live ptr.toNat = some t → s.live q.toNat = some t' → ptr ≠ q →
    ptr.toNat + usable s.mem ptr ≤ q.toNat ∨ q.toNat + usable s.mem q ≤ ptr.toNat

theorem Layout.covers {m : Memory} {live : ℕ → Option Request} {bs : List (Block Request)}
    (hl : Layout m live bs) : Covers m where
  chain := ⟨bs, hl.tiling.chain, hl.tiling.span⟩
  first := by
    obtain ⟨b, bs, rfl⟩ := List.exists_cons_of_ne_nil hl.ne_nil
    have hfirst : firstBlock.toNat = heapLo + span recordSize ([] : List (Block Request)) := rfl
    obtain ⟨hprev, -⟩ :=
      header (hl.tiling : Tiling bHeader heapArena m ([] ++ b :: bs)) hfirst
    exact BitVec.eq_of_toNat_eq hprev
  linked p hp hne := by
    obtain ⟨hnext, hprev⟩ := hl.tiling.linked (next_toNat m) rfl hl.ne_nil hp hne
    exact ⟨hnext, BitVec.eq_of_toNat_eq hprev⟩
  last p hp hzero := hl.tiling.last (next_toNat m) rfl hl.ne_nil hp hzero

theorem Layout.integrity {s : Session} {bs : List (Block Request)}
    (hl : Layout s.mem s.live bs) : ChainIntegrity s where
  covers := hl.covers
  onChain ptr t hlive := by
    obtain ⟨hchain, hused, -⟩ := hl.entry hlive
    exact ⟨hchain, hused⟩
  payload ptr t hlive := by
    obtain ⟨-, -, hlo, hhi, hsize, halign, -⟩ := hl.entry hlive
    exact ⟨halign, hsize, (Nat.le_add_right _ _).trans hlo, hhi⟩
  disjoint ptr q t t' hptr hq hne := by
    obtain ⟨-, -, -, -, -, -, hx⟩ := hl.entry hptr
    obtain ⟨-, -, -, -, -, -, hy⟩ := hl.entry hq
    exact payloads_disjoint hx hy fun heq => hne (BitVec.eq_of_toNat_eq heq)

/-- **Aligned heap integrity.** When every block that `heap_alloc` takes fits, the heap is
intact in every state that a run reaches. -/
theorem chainIntegrity_of_run {m : Memory} {l : List HeapOp} {t : Session}
    (h : Run (Guarded (fun s op => op.InRange ∧ op.Fits s) HeapStep) (Session.start m) l t) :
    ChainIntegrity t := by
  obtain ⟨bs, hl⟩ := h.inv (I := fun s => ∃ bs, Layout s.mem s.live bs)
    (fun ⟨bs, hl⟩ ⟨⟨hop, hfit⟩, hstep⟩ => hstep.layout hl hfit hop.aligned)
    ⟨_, start_layout m⟩
  exact hl.integrity

/-- On a heap of one free block, the search finds it for a request that needs no padding. -/
theorem start_findBlock (m : Memory) {size align : BitVec 32}
    (hpad : szPad align firstBlock = 0) (hsize : size.toNat + recordSize ≤ heapLen - recordSize)
    (fuel : ℕ) :
    findBlock (Session.start m).mem size align (fuel + 1) firstBlock =
      some (some firstBlock) := by
  have hrec := heapInit_record m
  have hfree : isFree (Session.start m).mem firstBlock = true := congrArg Record.flag hrec
  have hsz : sz (Session.start m).mem firstBlock = HEAP_SIZE - blockSize :=
    congrArg Record.word2 hrec
  have hlen : (HEAP_SIZE - blockSize).toNat = heapLen - recordSize := rfl
  have hblock : blockSize.toNat = recordSize := rfl
  have hsum : (size + blockSize).toNat = size.toNat + recordSize := by
    rw [BitVec.toNat_add, hblock]
    simp only [heapLen, recordSize] at *
    omega
  have hskip : ¬ (!isFree (Session.start m).mem firstBlock ∨
      sz (Session.start m).mem firstBlock < size + blockSize) := by
    rw [hfree, hsz, BitVec.lt_def, hlen, hsum]
    simpa using hsize
  rw [findBlock, if_neg hskip, if_neg (by simp [hpad])]

/-- Such a request fits. -/
theorem start_fits (m : Memory) {size align : BitVec 32}
    (hpad : szPad align firstBlock = 0) (hsize : size.toNat + recordSize ≤ heapLen - recordSize) :
    FitsLast (Session.start m).mem size align := by
  intro fuel blk hfind
  cases fuel with
  | zero => cases hfind
  | succ fuel =>
      rw [start_findBlock m hpad hsize] at hfind
      obtain rfl := Option.some.inj (Option.some.inj hfind)
      have hrec := heapInit_record m
      have hsz : sz (Session.start m).mem firstBlock = HEAP_SIZE - blockSize :=
        congrArg Record.word2 hrec
      have hlen : (HEAP_SIZE - blockSize).toNat = heapLen - recordSize := rfl
      have hblock : blockSize.toNat = recordSize := rfl
      have hnat : (0 : BitVec 32).toNat = 0 := rfl
      refine ⟨.head (by decide), congrArg Record.word0 hrec, fun h => absurd hpad h, ?_⟩
      rw [hpad, hnat, hsz, hlen, hblock]
      omega

/-- And it comes back. -/
theorem start_alloc (m : Memory) {size align : BitVec 32}
    (hpad : szPad align firstBlock = 0)
    (hsize : size.toNat + recordSize ≤ heapLen - recordSize) :
    HeapStep (Session.start m) (.alloc size align) ((Session.start m).alloc 1 size align) := by
  refine Session.alloc_step 1 ?_
  rw [heapAlloc, start_findBlock m hpad hsize]
  rfl

/-- A client that asks for 64 aligned bytes and writes the last one. -/
theorem chainIntegrity_alloc_store :
    ChainIntegrity ⟨store8 ((Session.start fun _ => 0).alloc 1 64 16).mem
        (0xA00010 + BitVec.ofNat 32 63) 7,
      ((Session.start fun _ => 0).alloc 1 64 16).live⟩ := by
  refine chainIntegrity_of_run (m := fun _ => 0) (l := [.alloc 64 16, .store 0xA00010 63 7])
    (.cons ⟨⟨⟨⟨4, rfl⟩, ?_⟩, start_fits _ (by decide) (by decide)⟩,
      Session.alloc_step 1 (by decide)⟩
    (.cons ⟨⟨trivial, trivial⟩, .store (t := ⟨64, 16⟩) ?_ (by decide)⟩ (.nil _)))
  · exact (by decide : (64 : BitVec 32).toNat ≤ HEAP_SIZE.toNat)
  · rfl

/-- The first block moves to reach the alignment, and `first_block` shows a wiped header. -/
theorem alloc_loses_first_block :
    ¬ ∀ (m : Memory) (l : List HeapOp) (t : Session),
      Run (Guarded (fun _ op => op.InRange) HeapStep) (Session.start m) l t →
        ChainIntegrity t := by
  intro h
  have hop : (HeapOp.alloc 1 32).InRange :=
    ⟨⟨5, rfl⟩, (by decide : (1 : BitVec 32).toNat ≤ HEAP_SIZE.toNat)⟩
  have hstep : HeapStep (Session.start fun _ => 0) (.alloc 1 32)
      ((Session.start fun _ => 0).alloc 1 1 32) := Session.alloc_step 1 (by decide)
  obtain ⟨⟨-, -, -, hlast⟩, -, -, -⟩ := h _ _ _ (.cons ⟨hop, hstep⟩ (.nil _))
  exact absurd (hlast firstBlock (.head (by decide)) (by decide)) (by decide)

/-! ### Free neighbours -/

/-- No two neighbours on the chain are both free. -/
def NoFreeNeighbours (m : Memory) : Prop :=
  ∀ p, OnChain m p → next m p ≠ 0 → isFree m p = false ∨ isFree m (next m p) = false

/-- The heap is one free block at `HEAP_START`, with all of the region but its header. -/
def SingleFree (m : Memory) : Prop :=
  record m HEAP_START = ⟨0, 0, HEAP_SIZE - blockSize, true⟩

section Layout

variable {m : Memory} {live : ℕ → Option Request} {bs : List (Block Request)}

theorem Layout.noFreeNeighbours (hl : Layout m live bs) : NoFreeNeighbours m := by
  intro p hp hne
  rcases hl.tiling.coalesced (next_toNat m) rfl hl.ne_nil hl.coalesced hp hne with h | h
  · exact .inl ((Bool.not_eq_true' _).mp h)
  · exact .inr ((Bool.not_eq_true' _).mp h)

theorem Layout.singleFree (hl : Layout m live bs) (hnone : ∀ x, live x = none) :
    SingleFree m := by
  obtain ⟨n, rfl⟩ := Owned.single (A := heapArena) hl.owned hl.coalesced hl.ne_nil hnone
  have hfirst : HEAP_START.toNat = heapLo + span recordSize ([] : List (Block Request)) := rfl
  obtain ⟨hprev, hnext, hlen, hfree⟩ :=
    header (hl.tiling : Tiling bHeader heapArena m ([] ++ [⟨n, none⟩])) hfirst
  have hspan : span recordSize [(⟨n, none⟩ : Block Request)] = heapLen := hl.tiling.span
  rw [span_cons, span_nil] at hspan
  have hlen' : sz m HEAP_START = HEAP_SIZE - blockSize := by
    refine BitVec.eq_of_toNat_eq ?_
    have hmax : (HEAP_SIZE - blockSize).toNat = heapLen - recordSize := rfl
    rw [hlen, hmax]
    omega
  calc record m HEAP_START
      = ⟨next m HEAP_START, prev m HEAP_START, sz m HEAP_START, isFree m HEAP_START⟩ := rfl
    _ = ⟨0, 0, HEAP_SIZE - blockSize, true⟩ := by
      rw [hlen', hfree, BitVec.eq_of_toNat_eq (y := 0) hprev,
        BitVec.eq_of_toNat_eq (y := 0) hnext]
      rfl

end Layout

/-- **`heap_free` undoes `heap_alloc`.** Without alignment, and when every block that
`heap_alloc` takes fits, no state that a run reaches has two free neighbours, and a state
without live pointers is the chain that `heap_init` leaves. -/
theorem chain_coalesced_of_run {m : Memory} {l : List HeapOp} {t : Session}
    (h : Run (Guarded (fun s op => op.Unaligned ∧ op.Fits s) HeapStep) (Session.start m) l t) :
    NoFreeNeighbours t.mem ∧ ((∀ x, t.live x = none) → SingleFree t.mem) := by
  obtain ⟨bs, hl⟩ := h.inv (I := fun s => ∃ bs, Layout s.mem s.live bs)
    (fun ⟨bs, hl⟩ ⟨⟨hop, hfit⟩, hstep⟩ => hstep.layout hl hfit hop.aligned)
    ⟨_, start_layout m⟩
  exact ⟨hl.noFreeNeighbours, hl.singleFree⟩

/-- One block, asked for and given back. -/
theorem chain_coalesced_alloc_free :
    NoFreeNeighbours (((Session.start fun _ => 0).alloc 1 64 1).free 0xA00010).mem ∧
    ((∀ x, (((Session.start fun _ => 0).alloc 1 64 1).free 0xA00010).live x = none) →
      SingleFree (((Session.start fun _ => 0).alloc 1 64 1).free 0xA00010).mem) :=
  chain_coalesced_of_run (m := fun _ => 0) (l := [.alloc 64 1, .free 0xA00010])
    (.cons ⟨⟨rfl, start_fits _ (by decide) (by decide)⟩,
      Session.alloc_step 1 (by decide)⟩
    (.cons ⟨⟨trivial, trivial⟩, .free (.inr ⟨⟨64, 1⟩, rfl⟩)⟩ (.nil _)))

/-- A cut in the middle of the chain: the first of two blocks is free again, and a request
for 16 bytes takes it. -/
def Session.cutMiddle : Session :=
  ((((Session.start fun _ => 0).alloc 3 64 1).alloc 3 16 1).free 0xA00010).alloc 3 16 1

/-- Behind a cut in the middle, `heap_free` does not find the free block before its own. -/
theorem cutMiddle_leaves_free_neighbours :
    ¬ ∀ (m : Memory) (l : List HeapOp) (t : Session),
      Run (Guarded (fun _ op => op.Unaligned) HeapStep) (Session.start m) l t →
        NoFreeNeighbours t.mem ∧ ((∀ x, t.live x = none) → SingleFree t.mem) := by
  intro h
  have hrun : Run (Guarded (fun _ op => op.Unaligned) HeapStep) (Session.start fun _ => 0)
      [.alloc 64 1, .alloc 16 1, .free 0xA00010, .alloc 16 1, .free 0xA00060]
      (Session.cutMiddle.free 0xA00060) := by
    refine .cons ⟨rfl, Session.alloc_step 3 (by decide)⟩ ?_
    refine .cons ⟨rfl, Session.alloc_step 3 (by decide)⟩ ?_
    refine .cons ⟨trivial, .free (.inr ⟨⟨64, 1⟩, rfl⟩)⟩ ?_
    refine .cons ⟨rfl, Session.alloc_step 3 (by decide)⟩ ?_
    exact .cons ⟨trivial, .free (.inr ⟨⟨16, 1⟩, rfl⟩)⟩ (.nil _)
  obtain ⟨hnone, -⟩ := h _ _ _ hrun
  have hfirst : OnChain (Session.cutMiddle.free 0xA00060).mem firstBlock := .head (by decide)
  exact absurd (hnone _ (hfirst.next (by decide)) (by decide))
    (by decide)

end B2OS.Heap
