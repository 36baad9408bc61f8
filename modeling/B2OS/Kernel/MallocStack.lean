import B2OS.Kernel.Confined
import B2OS.Kernel.MallocForward

/-!
# Blocks Asked For One After the Other

While nothing is given back, the free block of the heap of `Src/memory.c` is the last one, and
`malloc` takes each new block from its front. No block is split in the middle of the list, so all
links are right, and when the blocks are given back, in any order, the heap is one free block again.

A caller that gives back all that it asked for leaves a fresh heap as fresh as it was.

## Main results

* `Layout.malloc_stacked`: a call of `malloc` while the last block is the free one.
* `Layout.free_arena`: a call of `free` stores into the arena only.
* `Layout.fresh`: a heap with no live pointer is fresh.
-/

namespace B2OS.Kernel

open ByteMemory BlockChain

/-- Only the last block may be free. -/
def Stacked (bs : List (Block ℕ)) : Prop :=
  ∃ pre b, bs = pre ++ [b] ∧ ∀ c ∈ pre, c.tag.isSome = true

/-- A heap that nobody has a block of. -/
def Fresh (k : KernelHeap) : Prop := ∃ bs, Layout k (fun _ => none) bs

section Layout

variable {k k' : KernelHeap} {live : ℕ → Option ℕ} {bs : List (Block ℕ)}
variable {size : BitVec 32} {ptr : Addr} {fuel n : ℕ}

/-- Taking the last block. -/
theorem Layout.take_last {pre : List (Block ℕ)} {b : Block ℕ} {r : Addr}
    (hl : Layout k live (pre ++ [b])) (hr : r.toNat = base + span recordSize pre)
    (hfree : b.tag = none) (hfit : (roundUp size).toNat ≤ b.len) :
    (r + headerLen).toNat = base + span recordSize pre + recordSize ∧
      Layout { k with mem := takeBlock k.mem (roundUp size) r }
        (Function.update live (r + headerLen).toNat (some size.toNat))
        (pre ++ carve b (roundUp size).toNat size.toNat) := by
  obtain ⟨htop, -⟩ := hl.shape.bounds hr
  obtain ⟨-, -, hlen, -⟩ := hl.shape.header hr
  have hheader : headerLen.toNat = 16 := rfl
  have hptr : (r + headerLen).toNat = base + span recordSize pre + recordSize := by
    rw [BitVec.toNat_add, hheader, hr]
    simp only [base, arena, recordSize] at *
    omega
  have howned := hl.owned
  rw [payloads_append, payloads_free _ _ _ hfree] at howned
  refine ⟨hptr, ?_⟩
  have hsplit : roundUp size + headerLen ≤ length k.mem r ↔
      (roundUp size).toNat + recordSize ≤ b.len := by
    rw [splits_iff hlen (by simp only [base, arena, recordSize] at *; omega)]
  rw [carve]
  split_ifs with hroom
  · refine ⟨hl.head, hl.shape.split hr hroom (roundUp_mod size) le_roundUp, ?_, ?_⟩
    · rw [payloads_append, hptr]
      exact howned.alloc (payload_ne (by decide))
    · exact hl.coalesced.replace_last hfree ⟨.inl rfl, trivial⟩
  · have htake : takeBlock k.mem (roundUp size) r = setUsed k.mem r true := by
      rw [takeBlock, if_neg fun h => hroom (hsplit.mp h)]
    refine ⟨hl.head, ?_, ?_, hl.coalesced.replace_used rfl⟩
    · rw [htake]
      exact hl.shape.setTaken hr fun hle => (le_roundUp hle).trans hfit
    · rw [payloads_append, hptr]
      exact howned.alloc (payload_ne (by decide))

/-- What is behind the blocks in use once the last one was carved. -/
theorem stacked_carve {pre : List (Block ℕ)} (b : Block ℕ) (s n : ℕ)
    (hpre : ∀ c ∈ pre, c.tag.isSome = true) : Stacked (pre ++ carve b s n) := by
  rw [carve]
  split_ifs
  · refine ⟨pre ++ [⟨s, some n⟩], ⟨b.len - s - recordSize, none⟩, by simp, fun c hc => ?_⟩
    rcases List.mem_append.mp hc with hc | hc
    · exact hpre c hc
    · rw [List.mem_singleton.mp hc]
      rfl
  · exact ⟨pre, _, rfl, hpre⟩

/-- A call of `malloc` while the last block is the free one: no room, or a new pointer. -/
theorem Layout.malloc_stacked (hl : Layout k live bs) (hs : Stacked bs)
    (h : Kernel.malloc fuel size k = some (ptr, k')) : (ptr = 0 ∧ k' = k) ∨
      (ptr ≠ 0 ∧ ∃ bs', Stacked bs' ∧
        Layout k' (Function.update live ptr.toNat (some size.toNat)) bs') := by
  obtain ⟨pre, b, rfl, hpre⟩ := hs
  rcases malloc_cases h with hnone | ⟨r, -, hfind, hnull, rfl, rfl⟩
  · exact .inl hnone
  obtain hr0 | ⟨pre', b', post, heq, hr, hfree, hfit⟩ :=
    findFit_cases hl.shape.chain (by decide) hl.head_toNat hfind
  · exact absurd hr0 hnull
  -- the block that was found is the last one, since the others are in use
  obtain ⟨rfl, rfl⟩ : pre' = pre ∧ b' = b := by
    rcases List.eq_nil_or_concat' post with rfl | ⟨post, c, rfl⟩
    · obtain ⟨hpre', hb⟩ := List.append_inj' heq rfl
      exact ⟨hpre'.symm, (List.cons.inj hb).1.symm⟩
    · have hlast : pre ++ [b] = (pre' ++ b' :: post) ++ [c] := by
        rw [heq, List.append_assoc, List.cons_append]
      obtain ⟨hinit, -⟩ := List.append_inj' hlast rfl
      have hused := hpre b' (by rw [hinit]; simp)
      rw [hfree] at hused
      cases hused
  obtain ⟨hptr, hl'⟩ := hl.take_last hr hfree hfit
  exact .inr ⟨ne_zero_of_pos (by rw [hptr, recordSize]; omega), _, stacked_carve _ _ _ hpre, hl'⟩

/-- A call of `free` stores into the arena only. -/
theorem Layout.free_arena (hl : Layout k live bs) (hlive : live ptr.toNat = some n) :
    ChangedOnly k.mem (Kernel.free ptr k).mem base (base + arena) := by
  obtain ⟨pre, b, post, rfl, -, haddr, -⟩ := hl.block hlive
  have hne : ptr ≠ 0 := ne_zero_of_pos (by rw [haddr, base]; omega)
  rw [free_mem hne]
  exact free_changedOnly hl.shape (entry_toNat haddr) hl.shape.tiling.headersBelow (by decide)

/-- A call of `malloc` stores into the arena only. -/
theorem Layout.malloc_arena (hl : Layout k live bs)
    (h : Kernel.malloc fuel size k = some (ptr, k')) :
    ChangedOnly k.mem k'.mem base (base + arena) := by
  have hrow : Row k bs := ⟨hl.head, hl.shape.tiling.forward⟩
  rcases hrow.malloc h with ⟨-, rfl, -⟩ | ⟨pre, b, post, rfl, -, -, -, -, -, hch, -⟩
  · exact .refl _ _ _
  · have hspan : span recordSize (pre ++ b :: post) = arena := hl.shape.span
    rw [span_append, span_cons] at hspan
    exact hch.mono (by omega) (by omega)

end Layout

/-! ### Fresh heaps -/

section Fresh

variable {k : KernelHeap} {live : ℕ → Option ℕ} {bs : List (Block ℕ)}

theorem start_fresh (m : Memory) : Fresh (Session.start m).heap := ⟨_, start_layout m⟩

/-- A heap with no live pointer is fresh. -/
theorem Layout.fresh (hl : Layout k live bs) (hnone : ∀ x, live x = none) : Fresh k := by
  obtain rfl : live = fun _ => none := funext hnone
  exact ⟨bs, hl⟩

/-- It is one free block. -/
theorem Fresh.layout (hk : Fresh k) : Layout k (fun _ => none) [⟨arena - recordSize, none⟩] := by
  obtain ⟨bs, hl⟩ := hk
  obtain ⟨n, rfl⟩ := Owned.single (A := kernelArena) hl.owned hl.coalesced hl.ne_nil fun _ => rfl
  have hspan : span recordSize [(⟨n, none⟩ : Block ℕ)] = arena := hl.shape.span
  rw [span_cons, span_nil] at hspan
  obtain rfl : n = arena - recordSize := by
    simp only [arena, recordSize] at hspan ⊢
    omega
  exact hl

theorem stacked_single (b : Block ℕ) : Stacked [b] :=
  ⟨[], b, rfl, fun _ hc => absurd hc List.not_mem_nil⟩

end Fresh

end B2OS.Kernel
