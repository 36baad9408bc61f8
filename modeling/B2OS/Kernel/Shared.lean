import B2OS.Kernel.Confined

/-!
# Two Allocators in One Memory

The kernel has two allocators. The arena of `malloc` is the `MAX_MEM_SIZE` bytes from
`g_memory` on, up to `0xB00000`; the region of `heap_alloc` starts at `HEAP_START`, which is
`0xA00000`. A `State` is the memory with both, and its steps are the calls of either in any
order, `k_init_mem`, `heap_init`, and the stores of clients into their blocks.

The last MiB of the arena belongs to both. The allocators stay apart as long as `malloc` does
not use it: `heap_init` finds all of the list below `HEAP_START`, and afterwards no call of
`malloc` takes a block that reaches further. The steps must also keep their own lists whole,
or a list leads out of its arena.

## Main results

* `step_inv`: a step that meets the condition keeps both layouts.
* `separate_of_run`: live blocks of one allocator are apart from the live blocks and the
  headers of the other, and `heap_init` changes no header of `malloc`.
* `malloc_reaches_first_block`: without the condition a live block holds `first_block`.
-/

namespace B2OS.Shared

open ByteMemory BlockChain B2OS.Kernel B2OS.Heap

/-! ### The machine -/

/-- The memory and `head`, the live pointers of the two allocators, and whether `heap_init`
has run. -/
structure State where
  heap : KernelHeap
  kLive : ℕ → Option ℕ
  hLive : ℕ → Option Request
  ready : Bool

/-- Before any call: `head` is `NULL`, and no pointer is in use. -/
def State.start (m : Memory) : State := ⟨⟨m, 0⟩, fun _ => none, fun _ => none, false⟩

/-- The part of `memory.c`. -/
def State.kernel (s : State) : Kernel.Session := ⟨s.heap, s.kLive⟩

/-- The part of `heap.c`. -/
def State.region (s : State) : Heap.Session := ⟨s.heap.mem, s.hLive⟩

inductive Op
  | kInitMem
  | kernel (op : Kernel.HeapOp)
  | heapInit
  | heap (op : Heap.HeapOp)

/-- The calls of `heap.c` come after `heap_init`. A call of `heap_alloc` with alignment `0`
divides by zero and takes no step. -/
inductive Step : State → Op → State → Prop
  | kInitMem {s : State} : Step s .kInitMem { s with heap := Kernel.kInitMem s.heap }
  | kernel {s : State} {op : Kernel.HeapOp} {t : Kernel.Session} :
      op.MallocFree → Kernel.HeapStep s.kernel op t →
      Step s (.kernel op) { s with heap := t.heap, kLive := t.live }
  | heapInit {s : State} :
      Step s .heapInit { s with
        heap := { s.heap with mem := Heap.heapInit s.heap.mem }
        hLive := fun _ => none
        ready := true }
  | heap {s : State} {op : Heap.HeapOp} {t : Heap.Session} :
      s.ready = true → op.Aligned → Heap.HeapStep s.region op t →
      Step s (.heap op) { s with heap := { s.heap with mem := t.mem }, hLive := t.live }

/-! ### Separation -/

/-- The live blocks of either allocator are apart from the live blocks and from the block
headers of the other. -/
structure Separate (s : State) : Prop where
  payloads : ∀ ptr q n r, s.kLive ptr.toNat = some n → s.hLive q.toNat = some r →
    ptr.toNat + Kernel.usable s.heap ptr ≤ q.toNat ∨
      q.toNat + Heap.usable s.heap.mem q ≤ ptr.toNat
  onChain : ∀ ptr n blk, s.kLive ptr.toNat = some n → s.ready = true →
    OnChain s.heap.mem blk →
      ptr.toNat + Kernel.usable s.heap ptr ≤ blk.toNat ∨
        blk.toNat + blockSize.toNat ≤ ptr.toNat
  onList : ∀ q r entry, s.hLive q.toNat = some r → OnList s.heap entry →
    q.toNat + Heap.usable s.heap.mem q ≤ entry.toNat ∨
      entry.toNat + headerLen.toNat ≤ q.toNat

/-- The headers of `malloc` are in `t` what they were in `s`. -/
def HeadersKept (s t : State) : Prop :=
  ∀ entry, OnList s.heap entry → record t.heap.mem entry = record s.heap.mem entry

/-- The condition under which the allocators stay apart: `malloc` splits no block that has a
successor, takes nothing from `HEAP_START` on once `heap_init` has run, and has nothing there
when it runs; the block that `heap_alloc` takes fits. -/
def Good (s : State) : Op → Prop
  | .kInitMem => True
  | .kernel op => ¬ op.SplitsMiddle s.kernel ∧
      (s.ready = true → op.StaysBelow HEAP_START.toNat s.kernel)
  | .heapInit => ∀ ptr n, s.kLive ptr.toNat = some n →
      ptr.toNat + Kernel.usable s.heap ptr + headerLen.toNat ≤ HEAP_START.toNat
  | .heap op => op.Fits s.region

/-! ### The invariant -/

/-- Both allocators have their layout, or are not initialised; with `heap_init` done, that of
`malloc` lies below `HEAP_START`. -/
structure Inv (s : State) : Prop where
  kernel : (s.heap.head = 0 ∧ s.kLive = fun _ => none) ∨
    ∃ bs, Kernel.Layout s.heap s.kLive bs ∧ (s.ready = true → PayloadsBelow heapLo bs)
  region : (s.ready = true → ∃ hs, Heap.Layout s.heap.mem s.hLive hs) ∧
    (s.ready = false → s.hLive = fun _ => none)

theorem start_inv (m : Memory) : Inv (State.start m) where
  kernel := .inl ⟨rfl, rfl⟩
  region := ⟨nofun, fun _ => rfl⟩

/-- The arena starts below the region, with room for a header. -/
theorem base_le_heapLo : base + recordSize ≤ heapLo := by decide

theorem heapLo_le : heapLo ≤ 2 ^ 32 := by decide

/-- `malloc` and `free` do nothing before `k_init_mem`. -/
theorem step_uninit {s t : Kernel.Session} {op : Kernel.HeapOp} (h : Kernel.HeapStep s op t)
    (hop : op.MallocFree) (hhead : s.heap.head = 0) (hlive : s.live = fun _ => none) :
    t = s := by
  obtain ⟨k, live⟩ := s
  dsimp only at hhead hlive
  subst hlive
  cases h with
  | @malloc size fuel ptr k' hcall =>
      rcases malloc_cases hcall with ⟨rfl, rfl⟩ | ⟨r, -, hfind, hnull, -, -⟩
      · rw [grant, if_pos rfl]
      · dsimp only at hfind
        rw [hhead] at hfind
        cases fuel with
        | zero => cases hfind
        | succ fuel =>
            rw [findFit, if_pos rfl] at hfind
            exact absurd (Option.some.inj hfind).symm hnull
  | @free ptr hlive =>
      rcases hlive with rfl | ⟨n, hn⟩
      · have hsame : Function.update (fun _ => none : ℕ → Option ℕ) 0 none = fun _ => none :=
          Function.update_eq_self_iff.mpr rfl
        rw [free_null]
        exact congrArg (Kernel.Session.mk k) hsame
      · cases hn
  | calloc _ => exact hop.elim
  | realloc _ _ => exact hop.elim
  | store hlive _ => cases hlive

/-- `k_init_mem` does nothing once it has run. -/
theorem kInitMem_of_layout {k : KernelHeap} {live : ℕ → Option ℕ} {bs : List (Block ℕ)}
    (hl : Kernel.Layout k live bs) : Kernel.kInitMem k = k := by
  have hne : k.head ≠ 0 := by
    rw [hl.head]
    decide
  simp only [Kernel.kInitMem]
  rw [if_pos (.inl hne)]

theorem kInitMem_changedOnly (m : Memory) :
    ChangedOnly m (Kernel.kInitMem ⟨m, 0⟩).mem base heapLo := by
  have hcond : ¬ ((0 : Addr) ≠ 0 ∨ MAX_MEM_SIZE < headerLen) := by decide
  have hp : Inside gMemory base heapLo := ⟨by decide, by decide⟩
  simp only [Kernel.kInitMem, if_neg hcond]
  exact ((((ChangedOnly.refl m base heapLo).setWord1 hp heapLo_le _).setWord0 hp heapLo_le
    _).setFlag hp heapLo_le _).setWord2 hp heapLo_le _

section Inv

variable {s t : State}

theorem Inv.region_frame (hi : Inv s) {lo : ℕ} {m' : Memory}
    (hch : ChangedOnly s.heap.mem m' lo heapLo) :
    (s.ready = true → ∃ hs, Heap.Layout m' s.hLive hs) ∧
      (s.ready = false → s.hLive = fun _ => none) := by
  obtain ⟨hready, hnone⟩ := hi.region
  refine ⟨fun h => ?_, hnone⟩
  obtain ⟨hs, hl⟩ := hready h
  exact ⟨hs, hl.frame hch le_rfl⟩

/-- Stores into the region keep the layout of `malloc` below it. -/
theorem kernel_frame {k : KernelHeap} {live : ℕ → Option ℕ} {bs : List (Block ℕ)}
    {m' : Memory} (hl : Kernel.Layout k live bs) (hbelow : PayloadsBelow heapLo bs)
    (hch : ChangedOnly k.mem m' heapLo heapHi) :
    Kernel.Layout { k with mem := m' } live bs :=
  hl.frame (hl.headersBelow base_le_heapLo hbelow) heapLo_le hch

/-- `k_init_mem` keeps the invariant. -/
theorem Inv.kInitMem (hi : Inv s) : Inv { s with heap := Kernel.kInitMem s.heap } := by
  rcases hi.kernel with ⟨hhead, hnone⟩ | ⟨bs, hl, hbelow⟩
  · obtain ⟨⟨m, head⟩, kLive, hLive, ready⟩ := s
    dsimp only at hhead hnone
    subst hhead hnone
    refine ⟨.inr ⟨_, start_layout m, fun _ x hx => ?_⟩, hi.region_frame (kInitMem_changedOnly m)⟩
    cases hx
  · rw [kInitMem_of_layout hl]
    exact hi

/-- A call of `malloc` or `free` keeps the invariant. -/
theorem Inv.kernelStep (hi : Inv s) {op : Kernel.HeapOp} {t : Kernel.Session}
    (hgood : Good s (.kernel op)) (hop : op.MallocFree) (h : Kernel.HeapStep s.kernel op t) :
    Inv { s with heap := t.heap, kLive := t.live } := by
  obtain ⟨hsafe, hstay⟩ := hgood
  rcases hi.kernel with ⟨hhead, hnone⟩ | ⟨bs, hl, hbelow⟩
  · obtain rfl := step_uninit h hop hhead hnone
    exact hi
  · cases hready : s.ready with
    | false =>
        obtain ⟨bs', hl'⟩ := h.layout hl hsafe (.inr hop)
        refine ⟨.inr ⟨bs', hl', fun htrue => ?_⟩, fun htrue => ?_, fun _ => hi.region.2 hready⟩
        · cases htrue
        · cases htrue
    | true =>
        obtain ⟨bs', hl', hbelow', hch⟩ := h.confined hl hop hsafe (hstay hready)
          (hbelow hready) base_le_heapLo heapLo_le
        have hregion := hi.region_frame hch
        rw [hready] at hregion
        exact ⟨.inr ⟨bs', hl', fun _ => hbelow'⟩, hregion⟩

/-- What `heap_init` finds below `HEAP_START`. -/
theorem Inv.below (hgood : Good s .heapInit) {bs : List (Block ℕ)}
    (hl : Kernel.Layout s.heap s.kLive bs) : PayloadsBelow heapLo bs :=
  hl.payloadsBelow hgood

/-- `heap_init` keeps the invariant. -/
theorem Inv.heapInit (hi : Inv s) (hgood : Good s .heapInit) :
    Inv { s with
      heap := { s.heap with mem := Heap.heapInit s.heap.mem }
      hLive := fun _ => none
      ready := true } where
  kernel := by
    rcases hi.kernel with hnone | ⟨bs, hl, -⟩
    · exact .inl hnone
    · have hbelow := Inv.below hgood hl
      exact .inr ⟨bs, kernel_frame hl hbelow (heapInit_changedOnly _), fun _ => hbelow⟩
  region := ⟨fun _ => ⟨_, Heap.start_layout s.heap.mem⟩, fun _ => rfl⟩

/-- A call of `heap_alloc` or `heap_free` keeps the invariant. -/
theorem Inv.heapStep (hi : Inv s) {op : Heap.HeapOp} {t : Heap.Session}
    (hready : s.ready = true) (hgood : Good s (.heap op)) (hop : op.Aligned)
    (h : Heap.HeapStep s.region op t) :
    Inv { s with heap := { s.heap with mem := t.mem }, hLive := t.live } := by
  obtain ⟨hs, hlayout⟩ := hi.region.1 hready
  have hch := h.confined hlayout hgood
  refine ⟨?_, fun _ => h.layout hlayout hgood hop, fun hfalse => ?_⟩
  · rcases hi.kernel with hnone | ⟨bs, hl, hbelow⟩
    · exact .inl hnone
    · exact .inr ⟨bs, kernel_frame hl (hbelow hready) hch, hbelow⟩
  · rw [hready] at hfalse
    cases hfalse

/-- A step that meets the condition keeps the invariant. -/
theorem step_inv {op : Op} (hi : Inv s) (h : Guarded Good Step s op t) : Inv t := by
  obtain ⟨hgood, hstep⟩ := h
  cases hstep with
  | kInitMem => exact hi.kInitMem
  | kernel hop hstep => exact hi.kernelStep hgood hop hstep
  | heapInit => exact hi.heapInit hgood
  | heap hready hop hstep => exact hi.heapStep hready hgood hop hstep

/-! ### What the invariant says -/

/-- Before `k_init_mem` no block is on the list. -/
theorem not_onList {k : KernelHeap} (hhead : k.head = 0) (entry : Addr) : ¬ OnList k entry := by
  intro hw
  induction hw with
  | head hne => exact hne hhead
  | next _ _ ih => exact ih

/-- The live pointers of `heap.c` lie in the region. -/
theorem Inv.hLive_ge (hi : Inv s) {q : Addr} {r : Request} (hq : s.hLive q.toNat = some r) :
    s.ready = true ∧ heapLo + recordSize ≤ q.toNat := by
  cases hready : s.ready with
  | false =>
      rw [hi.region.2 hready] at hq
      cases hq
  | true =>
      obtain ⟨hs, hlayout⟩ := hi.region.1 hready
      obtain ⟨-, -, hlo, -⟩ := hlayout.entry hq
      exact ⟨rfl, hlo⟩

/-- The live pointers of `malloc` end below the region. -/
theorem Inv.kLive_le (hi : Inv s) (hready : s.ready = true) {ptr : Addr} {n : ℕ}
    (hptr : s.kLive ptr.toNat = some n) : ptr.toNat + Kernel.usable s.heap ptr ≤ heapLo := by
  rcases hi.kernel with ⟨-, hnone⟩ | ⟨bs, hl, hbelow⟩
  · rw [hnone] at hptr
    cases hptr
  · obtain ⟨-, -, -, -, -, hmem⟩ := hl.entry hptr
    have hend := hbelow hready _ hmem
    dsimp only at hend
    rw [Kernel.usable]
    omega

/-- A block on the list, when the payloads in use lie below `HEAP_START`. -/
theorem onList_inside {k : KernelHeap} {live : ℕ → Option ℕ} {bs : List (Block ℕ)}
    (hl : Kernel.Layout k live bs) (hbelow : PayloadsBelow heapLo bs) {entry : Addr}
    (hw : OnList k entry) : Inside entry base heapLo := by
  obtain ⟨pre, b, post, rfl, hentry⟩ :=
    (hl.shape.tiling.walk_iff (Kernel.next_toNat k.mem) hl.head_lo hl.ne_nil).mp hw
  exact (hl.headersBelow base_le_heapLo hbelow).inside hentry

theorem Inv.separate (hi : Inv s) : Separate s where
  payloads ptr q n r hptr hq := by
    obtain ⟨hready, hlo⟩ := hi.hLive_ge hq
    have hhi := hi.kLive_le hready hptr
    exact .inl (by omega)
  onChain ptr n blk hptr hready hw := by
    obtain ⟨hs, hlayout⟩ := hi.region.1 hready
    obtain ⟨pre, b, post, -, hblk⟩ := hlayout.walk_iff.mp hw
    have hhi := hi.kLive_le hready hptr
    exact .inl (by omega)
  onList q r entry hq hw := by
    obtain ⟨hready, hlo⟩ := hi.hLive_ge hq
    rcases hi.kernel with ⟨hhead, -⟩ | ⟨bs, hl, hbelow⟩
    · exact absurd hw (not_onList hhead entry)
    · obtain ⟨-, htop⟩ := onList_inside hl (hbelow hready) hw
      have hheader : headerLen.toNat = recordSize := rfl
      exact .inr (by omega)

/-- `heap_init` keeps the headers of `malloc`. -/
theorem Inv.headersKept (hi : Inv s) (h : Guarded Good Step s .heapInit t) :
    HeadersKept s t := by
  obtain ⟨hgood, hstep⟩ := h
  cases hstep
  intro entry hw
  rcases hi.kernel with ⟨hhead, -⟩ | ⟨bs, hl, -⟩
  · exact absurd hw (not_onList hhead entry)
  · obtain ⟨-, htop⟩ := onList_inside hl (Inv.below hgood hl) hw
    have hlo := heapLo_le
    exact (heapInit_changedOnly s.heap.mem).record_eq (by omega) (.inl htop)

end Inv

theorem malloc_step {s : State} {size : BitVec 32} {fuel : ℕ} {ptr : Addr} {k : KernelHeap}
    (hcall : Kernel.malloc fuel size s.heap = some (ptr, k)) :
    Step s (.kernel (.malloc size))
      { s with heap := k, kLive := grant s.kLive ptr size.toNat } :=
  .kernel (show (Kernel.HeapOp.malloc size).MallocFree from trivial) (.malloc hcall)

/-- A call of `malloc`, by its pointer and the length in the header. -/
theorem malloc_result {size n : BitVec 32} {fuel : ℕ} {ptr : Addr} {k : KernelHeap}
    (h : (Kernel.malloc fuel size k).map (fun r => (r.1, length r.2.mem (r.1 - headerLen))) =
      some (ptr, n)) :
    ∃ k', Kernel.malloc fuel size k = some (ptr, k') ∧
      length k'.mem (ptr - headerLen) = n := by
  obtain ⟨⟨ptr', k'⟩, hcall, hr⟩ := Option.map_eq_some_iff.mp h
  obtain ⟨rfl, hlen⟩ := Prod.mk.inj hr
  exact ⟨k', hcall, hlen⟩

end B2OS.Shared
