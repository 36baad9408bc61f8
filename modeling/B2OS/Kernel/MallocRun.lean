import B2OS.Kernel.MallocLayout

/-!
# Runs of the Kernel Heap

A `Session` is the heap of `Src/memory.c` with the pointers that its clients hold. From
the heap that `k_init_mem` leaves it takes steps: a call of `malloc`, `free`, `calloc` or
`realloc`, or a store of a client into one of its blocks.

`malloc` does not store the new header into the successor of a block that it splits, so a
run keeps the invariant `Layout` as long as no call splits a block that has a successor.

## Main results

* `HeapStep.layout`: a step that splits no block in the middle keeps the layout.
* `heapIntegrity_of_run`: the list tiles the arena, and the live payloads are apart.
* `heap_coalesced_of_run`: no two neighbours are free, and when no pointer is live the
  heap is one free block.
-/

namespace B2OS.Kernel

open ByteMemory BlockChain

/-! ### Sessions -/

/-- The heap, and for each live pointer the number of bytes it was asked for. -/
structure Session where
  heap : KernelHeap
  live : ℕ → Option ℕ

/-- The heap that `k_init_mem` leaves, with no pointer in use. -/
def Session.start (m : Memory) : Session := ⟨kInitMem ⟨m, 0⟩, fun _ => none⟩

/-- What clients do: the calls of the allocator, and a store into byte `i` of a block. -/
inductive HeapOp
  | malloc (size : BitVec 32)
  | free (ptr : Addr)
  | calloc (num size : BitVec 32)
  | realloc (ptr : Addr) (size : BitVec 32)
  | store (ptr : Addr) (i : ℕ) (value : BitVec 8)

/-- A pointer that may be freed: `NULL`, or a live one. -/
def Session.Freeable (s : Session) (ptr : Addr) : Prop := ptr = 0 ∨ ∃ n, s.live ptr.toNat = some n

/-- The calls give and take pointers; a store stays inside the block of its pointer. -/
inductive HeapStep : Session → HeapOp → Session → Prop
  | malloc {s : Session} {size : BitVec 32} {fuel : ℕ} {ptr : Addr} {k' : KernelHeap} :
      malloc fuel size s.heap = some (ptr, k') →
      HeapStep s (.malloc size) ⟨k', grant s.live ptr size.toNat⟩
  | free {s : Session} {ptr : Addr} : s.Freeable ptr →
      HeapStep s (.free ptr) ⟨free ptr s.heap, Function.update s.live ptr.toNat none⟩
  | calloc {s : Session} {num size : BitVec 32} {fuel : ℕ} {ptr : Addr} {k' : KernelHeap} :
      calloc fuel num size s.heap = some (ptr, k') →
      HeapStep s (.calloc num size) ⟨k', grant s.live ptr (num.toNat * size.toNat)⟩
  | realloc {s : Session} {ptr q : Addr} {size : BitVec 32} {fuel : ℕ} {k' : KernelHeap} :
      s.Freeable ptr → realloc fuel ptr size s.heap = some (q, k') →
      HeapStep s (.realloc ptr size) ⟨k', if q = 0 then s.live
        else grant (Function.update s.live ptr.toNat none) q size.toNat⟩
  | store {s : Session} {ptr : Addr} {i : ℕ} {value : BitVec 8} {n : ℕ} :
      s.live ptr.toNat = some n → i < (length s.heap.mem (ptr - headerLen)).toNat →
      HeapStep s (.store ptr i value)
        ⟨{ s.heap with mem := store8 s.heap.mem (ptr + BitVec.ofNat 32 i) value }, s.live⟩

/-- Requests of at most `maxRequest` bytes, counted without overflow. -/
def HeapOp.InRange : HeapOp → Prop
  | .malloc size | .realloc _ size => size.toNat ≤ maxRequest
  | .calloc num size => num.toNat * size.toNat ≤ maxRequest
  | .free _ | .store _ _ _ => True

/-- The calls of `malloc` and `free`, and stores. -/
def HeapOp.MallocFree : HeapOp → Prop
  | .malloc _ | .free _ | .store _ _ _ => True
  | .calloc _ _ | .realloc _ _ => False

/-- The call splits a block that has a successor. -/
def HeapOp.SplitsMiddle (s : Session) : HeapOp → Prop
  | .malloc size | .realloc _ size => Kernel.SplitsMiddle s.heap size
  | .calloc num size => Kernel.SplitsMiddle s.heap (num * size)
  | .free _ | .store _ _ _ => False

/-- A call of `malloc` on a session; the session stays as it is when the search runs out of
fuel. -/
def Session.malloc (s : Session) (fuel : ℕ) (size : BitVec 32) : Session :=
  match Kernel.malloc fuel size s.heap with
  | some (ptr, k') => ⟨k', grant s.live ptr size.toNat⟩
  | none => s

/-- A call of `free` on a session. -/
def Session.free (s : Session) (ptr : Addr) : Session :=
  ⟨Kernel.free ptr s.heap, Function.update s.live ptr.toNat none⟩

theorem Session.malloc_step {s : Session} (fuel : ℕ) {size : BitVec 32}
    (h : (Kernel.malloc fuel size s.heap).isSome) :
    HeapStep s (.malloc size) (s.malloc fuel size) := by
  obtain ⟨⟨ptr, k'⟩, hcall⟩ := Option.isSome_iff_exists.mp h
  rw [Session.malloc, hcall]
  exact .malloc hcall

/-! ### The layout along a run -/

/-- `k_init_mem` writes the header of one free block. -/
theorem kInitMem_record (m : Memory) :
    record (kInitMem ⟨m, 0⟩).mem gMemory = ⟨0, 0, MAX_MEM_SIZE - headerLen, false⟩ := by
  have hfits : Fits gMemory := (by decide : gMemory.toNat + recordSize ≤ 2 ^ 32)
  have hcond : ¬ ((0 : Addr) ≠ 0 ∨ MAX_MEM_SIZE < headerLen) := by decide
  simp only [kInitMem, if_neg hcond, setNext, setPrev, setUsed, setLength]
  rw [record_setWord2 hfits, record_setFlag hfits, record_setWord0 hfits,
    record_setWord1 hfits]

theorem start_layout (m : Memory) :
    Layout (Session.start m).heap (Session.start m).live [⟨arena - recordSize, none⟩] where
  head := rfl
  shape := by
    refine ⟨⟨⟨?_, trivial⟩, rfl⟩, ?_⟩
    · have hat := mHeader.at_toNat (kInitMem ⟨m, 0⟩).mem gMemory
      rw [kInitMem_record] at hat
      exact hat
    · rw [List.forall_mem_singleton]
      exact .free rfl
  owned x n := by
    constructor
    · intro h
      cases h
    · rintro ⟨_, h⟩
      cases h
  coalesced := trivial

/-- A step that splits no block in the middle keeps the layout. -/
theorem HeapStep.layout {s t : Session} {op : HeapOp} {bs : List (Block ℕ)}
    (h : HeapStep s op t) (hl : Layout s.heap s.live bs) (hsafe : ¬ op.SplitsMiddle s)
    (hop : op.InRange ∨ op.MallocFree) : ∃ bs', Layout t.heap t.live bs' := by
  cases h with
  | malloc hcall => exact hl.malloc_grant hsafe hcall
  | @free ptr hlive =>
      rcases hlive with rfl | ⟨n, hn⟩
      · have hsame : Function.update s.live 0 none = s.live :=
          Function.update_eq_self_iff.mpr hl.live_zero.symm
        refine ⟨bs, ?_⟩
        rw [free_null]
        change Layout s.heap (Function.update s.live 0 none) bs
        rwa [hsame]
      · exact hl.free hn
  | calloc hcall =>
      rcases hop with hsize | hfalse
      · exact hl.calloc hsize hsafe hcall
      · exact hfalse.elim
  | realloc hlive hcall =>
      rcases hop with hsize | hfalse
      · exact hl.realloc hlive hsize hsafe hcall
      · exact hfalse.elim
  | @store ptr i value n hlive hi =>
      refine ⟨bs, hl.write_live hlive le_rfl ?_⟩
      obtain ⟨-, -, -, htop, -, -⟩ := hl.entry hlive
      have hstore := ChangedOnly.store8 s.heap.mem (ptr + BitVec.ofNat 32 i) value
      rw [toNat_add_lt (a := ptr) (n := i + 1) (k := i) ?_ (by omega)] at hstore
      · exact hstore.mono (by omega) (by omega)
      · simp only [base, arena] at htop
        omega

/-- A request in range grants a size in range. -/
theorem grant_inRange {live : ℕ → Option ℕ} {ptr : Addr} {n : ℕ} (hn : n ≤ maxRequest)
    (h : ∀ x n, live x = some n → n ≤ maxRequest) :
    ∀ x n', grant live ptr n x = some n' → n' ≤ maxRequest := by
  intro x n' hx
  rw [grant] at hx
  split_ifs at hx with hnull
  · exact h x n' hx
  · by_cases heq : x = ptr.toNat
    · rw [heq, Function.update_self] at hx
      exact Option.some.inj hx ▸ hn
    · rw [Function.update_of_ne heq] at hx
      exact h x n' hx

theorem release_inRange {live : ℕ → Option ℕ} {y : ℕ}
    (h : ∀ x n, live x = some n → n ≤ maxRequest) :
    ∀ x n, Function.update live y none x = some n → n ≤ maxRequest := by
  intro x n hx
  by_cases heq : x = y
  · rw [heq, Function.update_self] at hx
    cases hx
  · rw [Function.update_of_ne heq] at hx
    exact h x n hx

theorem HeapStep.inRange {s t : Session} {op : HeapOp} (h : HeapStep s op t)
    (hop : op.InRange) (hs : ∀ x n, s.live x = some n → n ≤ maxRequest) :
    ∀ x n, t.live x = some n → n ≤ maxRequest := by
  cases h with
  | malloc _ => exact grant_inRange hop hs
  | free _ => exact release_inRange hs
  | calloc _ => exact grant_inRange hop hs
  | realloc _ _ =>
      dsimp only
      split_ifs
      · exact hs
      · exact grant_inRange hop (release_inRange hs)
  | store _ _ => exact hs

/-! ### Integrity of the list and of the payloads -/

/-- The blocks that a walk along `next` from the head meets. -/
abbrev OnList (k : KernelHeap) : Addr → Prop := Walk (next k.mem) k.head

/-- The list tiles the arena: it starts at the arena's first byte, every block is followed
by the next one, which links back to it, and the last one ends with the arena. -/
structure Tiles (k : KernelHeap) : Prop where
  head : k.head = gMemory
  chain : ∃ bs : List (Block ℕ), Chain recordSize (mHeader.at k.mem) 0 0 base bs ∧
    span recordSize bs = arena
  first : prev k.mem k.head = 0
  linked : ∀ p, OnList k p → next k.mem p ≠ 0 →
    (next k.mem p).toNat = p.toNat + headerLen.toNat + (length k.mem p).toNat ∧
      prev k.mem (next k.mem p) = p
  last : ∀ p, OnList k p → next k.mem p = 0 →
    p.toNat + headerLen.toNat + (length k.mem p).toNat = base + arena

/-- The bytes that the header of a pointer gives it. -/
def usable (k : KernelHeap) (ptr : Addr) : ℕ := (length k.mem (ptr - headerLen)).toNat

/-- The heap is intact: the list tiles the arena, and every live pointer is the payload of
a block in use, aligned, inside the arena, long enough and apart from the others. -/
structure HeapIntegrity (s : Session) : Prop where
  tiles : Tiles s.heap
  onList : ∀ ptr n, s.live ptr.toNat = some n →
    OnList s.heap (ptr - headerLen) ∧ used s.heap.mem (ptr - headerLen)
  payload : ∀ ptr n, s.live ptr.toNat = some n →
    4 ∣ ptr.toNat ∧ base + headerLen.toNat ≤ ptr.toNat ∧
      ptr.toNat + usable s.heap ptr ≤ base + arena ∧ n ≤ usable s.heap ptr
  disjoint : ∀ ptr q n n', s.live ptr.toNat = some n → s.live q.toNat = some n' → ptr ≠ q →
    ptr.toNat + usable s.heap ptr ≤ q.toNat ∨ q.toNat + usable s.heap q ≤ ptr.toNat

section Layout

variable {k : KernelHeap} {live : ℕ → Option ℕ} {bs : List (Block ℕ)}

theorem next_toNat (m : Memory) (p : Addr) :
    (next m p).toNat = (mHeader.hdr (record m p)).next := rfl

theorem Layout.head_lo (hl : Layout k live bs) : k.head.toNat = kernelArena.lo := by
  rw [hl.head]
  rfl

theorem Layout.tiles (hl : Layout k live bs) : Tiles k where
  head := hl.head
  chain := ⟨bs, hl.shape.chain, hl.shape.span⟩
  first := by
    obtain ⟨b, bs, rfl⟩ := List.exists_cons_of_ne_nil hl.ne_nil
    have hhead : k.head.toNat = base + span recordSize ([] : List (Block ℕ)) := hl.head_toNat
    obtain ⟨hprev, -⟩ := (hl.shape : Shape k.mem ([] ++ b :: bs)).header hhead
    exact BitVec.eq_of_toNat_eq hprev
  linked p hp hne := by
    obtain ⟨hnext, hprev⟩ :=
      hl.shape.tiling.linked (next_toNat k.mem) hl.head_lo hl.ne_nil hp hne
    exact ⟨hnext, BitVec.eq_of_toNat_eq hprev⟩
  last p hp hzero :=
    hl.shape.tiling.last (next_toNat k.mem) hl.head_lo hl.ne_nil hp hzero

/-- With all requests in range, a layout is an intact heap. -/
theorem Layout.integrity {s : Session} (hl : Layout s.heap s.live bs)
    (hrange : ∀ x n, s.live x = some n → n ≤ maxRequest) : HeapIntegrity s where
  tiles := hl.tiles
  onList ptr n hlive := by
    obtain ⟨hused, -⟩ := hl.entry hlive
    obtain ⟨pre, b, post, heq, -, haddr, -⟩ := hl.block hlive
    exact ⟨(hl.shape.tiling.walk_iff (next_toNat _) hl.head_lo hl.ne_nil).mpr
      ⟨pre, b, post, heq, entry_toNat haddr⟩, hused⟩
  payload ptr n hlive := by
    obtain ⟨-, h4, hlo, hhi, hlen, -⟩ := hl.entry hlive
    exact ⟨Nat.dvd_of_mod_eq_zero h4, hlo, hhi, hlen (hrange _ _ hlive)⟩
  disjoint ptr q n n' hptr hq hne := by
    obtain ⟨-, -, -, -, -, hx⟩ := hl.entry hptr
    obtain ⟨-, -, -, -, -, hy⟩ := hl.entry hq
    exact payloads_disjoint hx hy fun heq => hne (BitVec.eq_of_toNat_eq heq)

end Layout

/-- **Heap integrity.** When no call splits a block that has a successor, the heap is
intact in every state that a run reaches, and the search of the next `malloc` ends. -/
theorem heapIntegrity_of_run {m : Memory} {l : List HeapOp} {t : Session}
    (h : Run (Guarded (fun s op => op.InRange ∧ ¬ op.SplitsMiddle s) HeapStep)
      (Session.start m) l t) :
    HeapIntegrity t ∧ ∀ size, ∃ fuel r, malloc fuel size t.heap = some r := by
  have hinv := h.inv (I := fun s => (∃ bs, Layout s.heap s.live bs) ∧
    ∀ x n, s.live x = some n → n ≤ maxRequest) ?_ ⟨⟨_, start_layout m⟩, fun x n hx => by cases hx⟩
  · obtain ⟨⟨bs, hl⟩, hrange⟩ := hinv
    exact ⟨hl.integrity hrange, hl.malloc_returns⟩
  · rintro s op t ⟨⟨bs, hl⟩, hrange⟩ ⟨⟨hop, hsafe⟩, hstep⟩
    exact ⟨hstep.layout hl hsafe (.inl hop), hstep.inRange hop hrange⟩

section Layout

variable {k : KernelHeap} {live : ℕ → Option ℕ}

/-- A heap of one block splits none in the middle. -/
theorem Layout.not_splitsMiddle {b : Block ℕ} (hl : Layout k live [b]) (size : BitVec 32) :
    ¬ SplitsMiddle k size := by
  rintro ⟨-, fuel, ptr, hfind, hnull, -, hnext⟩
  obtain hzero | ⟨pre, c, post, heq, hptr, -, -⟩ :=
    findFit_cases hl.shape.chain (by decide) hl.head_toNat hfind
  · exact hnull hzero
  · have hshape := hl.shape
    rw [heq] at hshape
    obtain ⟨-, hlink, -, -⟩ := hshape.header hptr
    obtain ⟨-, rfl⟩ : pre = [] ∧ post = [] := by
      have hlen := congrArg List.length heq
      simp only [List.length_append, List.length_cons, List.length_nil] at hlen
      exact ⟨List.eq_nil_of_length_eq_zero (by omega),
        List.eq_nil_of_length_eq_zero (by omega)⟩
    exact hnext (BitVec.eq_of_toNat_eq hlink)

end Layout

theorem start_malloc_guard (m : Memory) (size : BitVec 32) :
    ¬ (HeapOp.malloc size).SplitsMiddle (Session.start m) :=
  (start_layout m).not_splitsMiddle size

/-- A client that asks for 64 bytes and writes the last one. -/
theorem heapIntegrity_malloc_store :
    HeapIntegrity ⟨{ ((Session.start fun _ => 0).malloc 3 64).heap with
        mem := store8 ((Session.start fun _ => 0).malloc 3 64).heap.mem
          (0x100010 + BitVec.ofNat 32 63) 7 },
      ((Session.start fun _ => 0).malloc 3 64).live⟩ ∧
    ∀ size, ∃ fuel r, malloc fuel size
      { ((Session.start fun _ => 0).malloc 3 64).heap with
        mem := store8 ((Session.start fun _ => 0).malloc 3 64).heap.mem
          (0x100010 + BitVec.ofNat 32 63) 7 } = some r := by
  refine heapIntegrity_of_run (m := fun _ => 0) (l := [.malloc 64, .store 0x100010 63 7])
    (.cons ⟨⟨?_, start_malloc_guard _ _⟩, Session.malloc_step 3 (by decide)⟩
      (.cons ⟨⟨trivial, not_false⟩, .store (n := 64) (by decide) (by decide)⟩
        (.nil _)))
  exact (by decide : (64 : BitVec 32).toNat ≤ maxRequest)

/-! ### A split in the middle -/

/-- The first of two blocks is free again, and a request of 16 bytes splits it. -/
def Session.split : Session :=
  ((((Session.start fun _ => 0).malloc 3 64).malloc 3 16).free 0x100010).malloc 3 16

theorem split_run :
    Run (Guarded (fun _ op => op.InRange ∧ op.MallocFree) HeapStep)
      (Session.start fun _ => 0) [.malloc 64, .malloc 16, .free 0x100010, .malloc 16]
      Session.split := by
  have h64 : (64 : BitVec 32).toNat ≤ maxRequest := by decide
  have h16 : (16 : BitVec 32).toNat ≤ maxRequest := by decide
  refine .cons ⟨⟨h64, trivial⟩, Session.malloc_step 3 (by decide)⟩ ?_
  refine .cons ⟨⟨h16, trivial⟩, Session.malloc_step 3 (by decide)⟩ ?_
  refine .cons ⟨⟨trivial, trivial⟩, .free (.inr ⟨64, by decide⟩)⟩ ?_
  exact .cons ⟨⟨h16, trivial⟩, Session.malloc_step 3 (by decide)⟩ (.nil _)

/-- The block behind the split one does not link back to the new header. -/
theorem split_breaks_integrity :
    ¬ ∀ (m : Memory) (ops : List HeapOp) (t : Session),
      Run (Guarded (fun _ op => op.InRange) HeapStep) (Session.start m) ops t →
        HeapIntegrity t := by
  intro h
  obtain ⟨⟨-, -, -, hlinked, -⟩, -, -, -⟩ := h _ _ _ (split_run.mono fun h => ⟨h.1.1, h.2⟩)
  have hhead : OnList Session.split.heap Session.split.heap.head := .head (by decide)
  obtain ⟨-, hprev⟩ := hlinked _ (hhead.next (by decide)) (by decide)
  exact absurd hprev (by decide)

/-! ### Free neighbours -/

/-- No two neighbours on the list are both free. -/
def NoFreeNeighbours (k : KernelHeap) : Prop :=
  ∀ p, OnList k p → next k.mem p ≠ 0 → used k.mem p ∨ used k.mem (next k.mem p)

/-- The heap is one free block, with all of the arena but its header. -/
def SingleFree (k : KernelHeap) : Prop :=
  k.head = gMemory ∧ record k.mem k.head = ⟨0, 0, MAX_MEM_SIZE - headerLen, false⟩

section Layout

variable {k : KernelHeap} {live : ℕ → Option ℕ} {bs : List (Block ℕ)}

theorem Layout.noFreeNeighbours (hl : Layout k live bs) : NoFreeNeighbours k :=
  fun _ hp hne => hl.shape.tiling.coalesced (next_toNat k.mem) hl.head_lo hl.ne_nil
    hl.coalesced hp hne

theorem Layout.singleFree (hl : Layout k live bs) (hnone : ∀ x, live x = none) :
    SingleFree k := by
  obtain ⟨n, rfl⟩ := Owned.single (A := kernelArena) hl.owned hl.coalesced hl.ne_nil hnone
  have hhead : k.head.toNat = base + span recordSize ([] : List (Block ℕ)) := hl.head_toNat
  obtain ⟨hprev, hnext, hlen, hused⟩ :=
    (hl.shape : Shape k.mem ([] ++ [⟨n, none⟩])).header hhead
  have hspan := hl.shape.span
  rw [span_cons, span_nil] at hspan
  refine ⟨hl.head, ?_⟩
  have hlen' : length k.mem k.head = MAX_MEM_SIZE - headerLen := by
    refine BitVec.eq_of_toNat_eq ?_
    have hmax : (MAX_MEM_SIZE - headerLen).toNat = arena - recordSize := rfl
    rw [hlen, hmax]
    omega
  calc record k.mem k.head
      = ⟨prev k.mem k.head, next k.mem k.head, length k.mem k.head, used k.mem k.head⟩ := rfl
    _ = ⟨0, 0, MAX_MEM_SIZE - headerLen, false⟩ := by
      rw [hlen', hused, BitVec.eq_of_toNat_eq (y := 0) hprev,
        BitVec.eq_of_toNat_eq (y := 0) hnext]
      rfl

end Layout

/-- **`free` undoes `malloc`.** When no call splits a block that has a successor, no state
that a run reaches has two free neighbours, and a state without live pointers is the heap
that `k_init_mem` leaves. -/
theorem heap_coalesced_of_run {m : Memory} {l : List HeapOp} {t : Session}
    (h : Run (Guarded (fun s op => op.MallocFree ∧ ¬ op.SplitsMiddle s) HeapStep)
      (Session.start m) l t) :
    NoFreeNeighbours t.heap ∧ ((∀ x, t.live x = none) → SingleFree t.heap) := by
  obtain ⟨bs, hl⟩ := h.inv (I := fun s => ∃ bs, Layout s.heap s.live bs)
    (fun ⟨bs, hl⟩ ⟨⟨hop, hsafe⟩, hstep⟩ => hstep.layout hl hsafe (.inr hop))
    ⟨_, start_layout m⟩
  exact ⟨hl.noFreeNeighbours, hl.singleFree⟩

/-- One block, asked for and given back. -/
theorem heap_coalesced_malloc_free :
    NoFreeNeighbours (((Session.start fun _ => 0).malloc 3 64).free 0x100010).heap ∧
    ((∀ x, (((Session.start fun _ => 0).malloc 3 64).free 0x100010).live x = none) →
      SingleFree (((Session.start fun _ => 0).malloc 3 64).free 0x100010).heap) :=
  heap_coalesced_of_run (m := fun _ => 0) (l := [.malloc 64, .free 0x100010])
    (.cons ⟨⟨trivial, start_malloc_guard _ _⟩, Session.malloc_step 3 (by decide)⟩
      (.cons ⟨⟨trivial, not_false⟩, .free (.inr ⟨64, by decide⟩)⟩ (.nil _)))

/-- Behind a split in the middle, `free` does not find the free block before its own. -/
theorem split_leaves_free_neighbours :
    ¬ ∀ (m : Memory) (ops : List HeapOp) (t : Session),
      Run (Guarded (fun _ op => op.MallocFree) HeapStep) (Session.start m) ops t →
        NoFreeNeighbours t.heap ∧ ((∀ x, t.live x = none) → SingleFree t.heap) := by
  intro h
  have hrun : Run (Guarded (fun _ op => op.MallocFree) HeapStep) _ _ _ :=
    split_run.mono fun h => ⟨h.1.2, h.2⟩
  have hfree : Guarded (fun _ op => op.MallocFree) HeapStep Session.split
      (.free 0x100060) (Session.split.free 0x100060) :=
    ⟨trivial, .free (.inr ⟨16, by decide⟩)⟩
  obtain ⟨hnone, -⟩ := h _ _ _ (hrun.concat hfree)
  have hhead : OnList (Session.split.free 0x100060).heap (Session.split.free 0x100060).heap.head :=
    .head (by decide)
  exact absurd (hnone _ (hhead.next (by decide)) (by decide))
    (by decide)

end B2OS.Kernel
