import B2OS.Kernel.HeapForward

/-!
# The Search of `heap_alloc`

`heap_alloc` looks at the blocks of the chain in their order and goes on with the first one
that passes its two tests. Where the first test fails it looks at the link before it follows
it; where the second one fails it does not, and goes on at address `0` behind the last block.

## Main results

* `First.found`: the search finds the first block that passes.
* `search_end`, `search_null`: what it does when no block passes.
* `found_first`: when it does not go on past the end, it finds nothing else.
-/

namespace B2OS.Heap

open ByteMemory BlockChain B2OS.Kernel

/-! ### The tests -/

section Tests

variable (m : Memory) (size align : BitVec 32) (blk : Addr)

/-- The first test fails: the block is in use, or too small for `size` bytes and a header. -/
def TooSmall : Prop := isFree m blk = false ∨ sz m blk < size + blockSize

/-- The second test fails: padding leaves less than `size` bytes of the block. -/
def PadMisses : Prop := szPad align blk ≠ 0 ∧ sz m blk - szPad align blk < size

/-- The block passes both tests. -/
def Accepts : Prop := ¬ TooSmall m size blk ∧ ¬ PadMisses m size align blk

/-- The first block of the chain that passes both tests. -/
def First : Prop :=
  OnChain m blk ∧ Accepts m size align blk ∧
    ∀ c, OnChain m c → c.toNat < blk.toNat → ¬ Accepts m size align c

/-- The free block holds the padding, `size` bytes and the header of the rest. -/
def Holds : Prop :=
  isFree m blk = true ∧
    (szPad align blk).toNat + size.toNat + blockSize.toNat ≤ (sz m blk).toNat

/-- When no block of the chain passes, the search stops at the last one, or finds nothing
where it goes on from there, at address `0`. -/
def NullSafe : Prop :=
  (∀ c, OnChain m c → ¬ Accepts m size align c) → ∀ c, OnChain m c → next m c = 0 →
    TooSmall m size c ∨ ∀ fuel found, findBlock m size align fuel 0 ≠ some (some found)

end Tests

section Sizes

variable {m : Memory} {size align : BitVec 32} {blk : Addr}

/-- The first test where `sz + sizeof(Block)` does not wrap. -/
theorem not_tooSmall_of_lt (h : size.toNat + blockSize.toNat < 2 ^ 32) : ¬ TooSmall m size blk ↔
    isFree m blk = true ∧ size.toNat + blockSize.toNat ≤ (sz m blk).toNat := by
  have hsum : (size + blockSize).toNat = size.toNat + blockSize.toNat := by
    rw [BitVec.toNat_add, Nat.mod_eq_of_lt h]
  rw [TooSmall, not_or, Bool.not_eq_false, BitVec.not_lt, BitVec.le_def, hsum]

variable (hsize : size.toNat ≤ HEAP_SIZE.toNat)
include hsize

theorem not_tooSmall_iff : ¬ TooSmall m size blk ↔
    isFree m blk = true ∧ size.toNat + blockSize.toNat ≤ (sz m blk).toNat := by
  have hmax : HEAP_SIZE.toNat = heapLen := rfl
  have hblock : blockSize.toNat = 16 := rfl
  refine not_tooSmall_of_lt ?_
  simp only [heapLen] at hmax
  omega

/-- A block that holds all passes both tests. -/
theorem Holds.accepts (h : Holds m size align blk) : Accepts m size align blk := by
  obtain ⟨hfree, hroom⟩ := h
  refine ⟨(not_tooSmall_iff hsize).mpr ⟨hfree, by omega⟩, ?_⟩
  rintro ⟨-, hmiss⟩
  rw [BitVec.lt_def, BitVec.toNat_sub] at hmiss
  have hsz := (sz m blk).isLt
  omega

end Sizes

/-! ### One step of the search -/

section Search

variable {m : Memory} {size align : BitVec 32} {blk p q : Addr}

theorem tooSmall_iff : TooSmall m size blk ↔ !isFree m blk ∨ sz m blk < size + blockSize := by
  rw [TooSmall, Bool.not_eq_true']

theorem findBlock_accept (h : Accepts m size align blk) (fuel : ℕ) :
    findBlock m size align (fuel + 1) blk = some (some blk) := by
  obtain ⟨hroom, hpad⟩ := h
  rw [PadMisses] at hpad
  rw [findBlock, if_neg fun hsmall => hroom (tooSmall_iff.mpr hsmall), if_neg hpad]

theorem findBlock_end (h : TooSmall m size blk) (hend : next m blk = 0) (fuel : ℕ) :
    findBlock m size align (fuel + 1) blk = some none := by
  rw [findBlock, if_pos (tooSmall_iff.mp h), if_pos hend]

theorem findBlock_next (h : ¬ Accepts m size align blk)
    (hgo : next m blk ≠ 0 ∨ ¬ TooSmall m size blk) (fuel : ℕ) :
    findBlock m size align (fuel + 1) blk = findBlock m size align fuel (next m blk) := by
  by_cases hsmall : TooSmall m size blk
  · rw [findBlock, if_pos (tooSmall_iff.mp hsmall),
      if_neg (hgo.resolve_right (not_not.mpr hsmall))]
  · have hpad : PadMisses m size align blk := not_not.mp fun hpad => h ⟨hsmall, hpad⟩
    rw [PadMisses] at hpad
    rw [findBlock, if_neg fun hsm => hsmall (tooSmall_iff.mpr hsm), if_pos hpad]

/-- The search finds blocks that pass only. -/
theorem findBlock_accepts : ∀ {fuel : ℕ} {p : Addr},
    findBlock m size align fuel p = some (some blk) → Accepts m size align blk := by
  intro fuel
  induction fuel with
  | zero =>
      intro p h
      cases h
  | succ fuel ih =>
      intro p h
      by_cases hacc : Accepts m size align p
      · rw [findBlock_accept hacc] at h
        obtain rfl := Option.some.inj (Option.some.inj h)
        exact hacc
      · by_cases hgo : next m p ≠ 0 ∨ ¬ TooSmall m size p
        · rw [findBlock_next hacc hgo] at h
          exact ih h
        · rw [not_or, not_not, not_not] at hgo
          rw [findBlock_end hgo.2 hgo.1] at h
          cases h

/-- More fuel does not change an answer. -/
theorem findBlock_mono {r : Option Addr} (k : ℕ) : ∀ {fuel : ℕ} {p : Addr},
    findBlock m size align fuel p = some r → findBlock m size align (fuel + k) p = some r := by
  intro fuel
  induction fuel with
  | zero =>
      intro p h
      cases h
  | succ fuel ih =>
      intro p h
      rw [Nat.add_right_comm]
      by_cases hacc : Accepts m size align p
      · rw [findBlock_accept hacc] at h ⊢
        exact h
      · by_cases hgo : next m p ≠ 0 ∨ ¬ TooSmall m size p
        · rw [findBlock_next hacc hgo] at h ⊢
          exact ih h
        · rw [not_or, not_not, not_not] at hgo
          rw [findBlock_end hgo.2 hgo.1] at h ⊢
          exact h

/-- Two answers are the same. -/
theorem findBlock_unique {r r' : Option Addr} {fuel fuel' : ℕ}
    (h : findBlock m size align fuel p = some r)
    (h' : findBlock m size align fuel' p = some r') : r = r' := by
  have hmono := findBlock_mono fuel' h
  rw [Nat.add_comm, findBlock_mono fuel h'] at hmono
  exact (Option.some.inj hmono).symm

/-! ### The search on a row -/

/-- The search passes over blocks that do not pass, and past the end of the chain when the last
one fails the second test. -/
theorem findBlock_skip {rest : List (Block Request)} (fuel : ℕ) :
    ∀ {pre : List (Block Request)} {a : ℕ} {p q : Addr},
      Links recordSize (bHeader.at m) 0 a (pre ++ rest) → 0 < a →
      p.toNat = link a 0 (pre ++ rest) → q.toNat = link (a + span recordSize pre) 0 rest →
      (∀ x : Addr, x.toNat ∈ places recordSize a pre → ¬ Accepts m size align x) →
      (∀ x : Addr, x.toNat ∈ places recordSize a pre → next m x = 0 → ¬ TooSmall m size x) →
      findBlock m size align (pre.length + fuel) p = findBlock m size align fuel q := by
  intro pre
  induction pre with
  | nil =>
      intro a p q _ _ hp hq _ _
      obtain rfl : p = q := BitVec.eq_of_toNat_eq (hp.trans hq.symm)
      rw [List.length_nil, Nat.zero_add]
  | cons b pre ih =>
      intro a p q hl ha hp hq hnone hend
      have hplace : p.toNat ∈ places recordSize a (b :: pre) := by
        rw [hp]
        exact List.mem_cons_self
      have hhdr := hl.1
      rw [show a = p.toNat from hp.symm, bHeader.at_toNat] at hhdr
      have hnext : (next m p).toNat = link (a + recordSize + b.len) 0 (pre ++ rest) := by
        rw [show a = p.toNat from hp.symm]
        exact congrArg Hdr.next hhdr
      have hgo : next m p ≠ 0 ∨ ¬ TooSmall m size p := by
        by_cases hzero : next m p = 0
        · exact .inr (hend p hplace hzero)
        · exact .inl hzero
      rw [List.length_cons, Nat.add_right_comm, findBlock_next (hnone p hplace) hgo]
      refine ih hl.2 (by omega) hnext ?_ (fun x hx => hnone x (List.mem_cons_of_mem _ hx))
        fun x hx => hend x (List.mem_cons_of_mem _ hx)
      rw [hq, span_cons, ← Nat.add_assoc, ← Nat.add_assoc]

end Search

/-! ### The search on the chain -/

section Forward

variable {m : Memory} {size align : BitVec 32} {bs pre post : List (Block Request)}
variable {b : Block Request} {blk p : Addr} {fuel : ℕ}

theorem row_ne_nil (hf : Forward bHeader heapArena m bs) : bs ≠ [] := by
  rintro rfl
  have hspan : 0 = heapLen := hf.span
  cases hspan

theorem firstBlock_toNat (hf : Forward bHeader heapArena m bs) :
    firstBlock.toNat = link heapLo 0 bs := by
  obtain ⟨b, bs, rfl⟩ := List.exists_cons_of_ne_nil (row_ne_nil hf)
  rfl

theorem onChain_iff (hf : Forward bHeader heapArena m bs) :
    OnChain m p ↔ p.toNat ∈ places recordSize heapLo bs :=
  hf.walk_iff (next_toNat m) rfl (row_ne_nil hf)

/-- The address of a place. -/
theorem toNat_place (hf : Forward bHeader heapArena m bs) {x : ℕ}
    (hx : x ∈ places recordSize heapLo bs) : (BitVec.ofNat 32 x).toNat = x := by
  have hbounds := place_bounds hx
  rw [hf.span] at hbounds
  rw [BitVec.toNat_ofNat, Nat.mod_eq_of_lt]
  simp only [heapArena, heapLo, heapLen, recordSize] at hbounds
  omega

/-- The last block of the chain is the one without a successor. -/
theorem next_eq_zero_iff (hf : Forward bHeader heapArena m (pre ++ b :: post))
    (hp : p.toNat = heapLo + span recordSize pre) : next m p = 0 ↔ post = [] := by
  obtain ⟨hnext, -, -⟩ := row_header hf hp
  cases post with
  | nil => exact iff_of_true (BitVec.eq_of_toNat_eq hnext) rfl
  | cons c post =>
      refine iff_of_false (ne_zero_of_pos ?_) (List.cons_ne_nil c post)
      rw [hnext, link_cons, recordSize]
      omega

/-- There is a first block that passes, or none passes. -/
theorem first_or_none (hf : Forward bHeader heapArena m bs) (size align : BitVec 32) :
    (∃ blk, First m size align blk) ∨ ∀ c, OnChain m c → ¬ Accepts m size align c := by
  obtain ⟨pre, b, post, rfl, hacc, hpre⟩ | hnone := exists_first_place
    (fun x => Accepts m size align (BitVec.ofNat 32 x)) heapLo bs (h := recordSize)
  · have hnat := toNat_place hf (place_mem heapLo pre post b)
    refine .inl ⟨_, (onChain_iff hf).mpr (by rw [hnat]; exact place_mem heapLo pre post b), hacc,
      fun c hc hlt => ?_⟩
    have hbefore := (mem_places_before (by decide) ((onChain_iff hf).mp hc)).mpr
      (by rwa [hnat] at hlt)
    have hc' := hpre _ hbefore
    rwa [BitVec.ofNat_toNat, BitVec.setWidth_eq] at hc'
  · refine .inr fun c hc => ?_
    have hc' := hnone _ ((onChain_iff hf).mp hc)
    rwa [BitVec.ofNat_toNat, BitVec.setWidth_eq] at hc'

/-- The search comes to a block when no block before it passes. -/
theorem search_reaches (hf : Forward bHeader heapArena m (pre ++ b :: post))
    (hp : p.toNat = heapLo + span recordSize pre)
    (hbefore : ∀ c, OnChain m c → c.toNat < p.toNat → ¬ Accepts m size align c) (fuel : ℕ) :
    findBlock m size align (pre.length + fuel) firstBlock = findBlock m size align fuel p := by
  refine findBlock_skip fuel hf.links (by decide) (firstBlock_toNat hf) hp (fun x hx => ?_)
    fun x hx hzero => ?_
  · have hplace : x.toNat ∈ places recordSize heapLo (pre ++ b :: post) := by
      rw [places_append]
      exact List.mem_append_left _ hx
    refine hbefore x ((onChain_iff hf).mpr hplace) ?_
    rw [hp]
    exact (mem_places_before (by decide) hplace).mp hx
  · obtain ⟨pre₁, c, pre₂, rfl, hx'⟩ := mem_places_iff.mp hx
    have hfc : Forward bHeader heapArena m (pre₁ ++ c :: (pre₂ ++ b :: post)) := by
      simpa using hf
    have hnil := (next_eq_zero_iff hfc hx').mp hzero
    simp at hnil

/-- The search finds the first block that passes. -/
theorem First.found (hf : Forward bHeader heapArena m bs) (h : First m size align blk) :
    ∃ fuel, findBlock m size align fuel firstBlock = some (some blk) := by
  obtain ⟨hon, hacc, hbefore⟩ := h
  obtain ⟨pre, b, post, rfl, hp⟩ := mem_places_iff.mp ((onChain_iff hf).mp hon)
  refine ⟨pre.length + 1, ?_⟩
  rw [search_reaches hf hp hbefore]
  exact findBlock_accept hacc 0

/-- The search ends at the last block, when it fails the first test and no block passes. -/
theorem search_end (hf : Forward bHeader heapArena m bs)
    (hnone : ∀ c, OnChain m c → ¬ Accepts m size align c) (hon : OnChain m p)
    (hlast : next m p = 0) (hsmall : TooSmall m size p) :
    ∃ fuel, findBlock m size align fuel firstBlock = some none := by
  obtain ⟨pre, b, post, rfl, hp⟩ := mem_places_iff.mp ((onChain_iff hf).mp hon)
  refine ⟨pre.length + 1, ?_⟩
  rw [search_reaches hf hp fun c hc _ => hnone c hc]
  exact findBlock_end hsmall hlast 0

/-- The search goes on at address `0`, when the last block fails the second test and no block
passes. -/
theorem search_null (hf : Forward bHeader heapArena m bs)
    (hnone : ∀ c, OnChain m c → ¬ Accepts m size align c) (hon : OnChain m p)
    (hlast : next m p = 0) (hroom : ¬ TooSmall m size p) (fuel : ℕ) :
    findBlock m size align (bs.length + fuel) firstBlock = findBlock m size align fuel 0 := by
  have hl := hf.links
  have hfirst := firstBlock_toNat hf
  rw [← List.append_nil bs] at hl hfirst
  refine findBlock_skip fuel hl (by decide) hfirst rfl
    (fun x hx => hnone x ((onChain_iff hf).mpr hx)) fun x hx hzero => ?_
  -- the chain has one last block
  obtain ⟨pre, b, post, rfl, hp⟩ := mem_places_iff.mp ((onChain_iff hf).mp hon)
  obtain rfl := (next_eq_zero_iff hf hp).mp hlast
  obtain ⟨pre', b', post', heq, hp'⟩ := mem_places_iff.mp hx
  rw [heq] at hf
  obtain rfl := (next_eq_zero_iff hf hp').mp hzero
  obtain ⟨rfl, -⟩ := List.append_inj' heq rfl
  obtain rfl : x = p := BitVec.eq_of_toNat_eq (hp'.trans hp.symm)
  exact hroom

/-- There is a last block. -/
theorem exists_last (hf : Forward bHeader heapArena m bs) : ∃ p, OnChain m p ∧ next m p = 0 := by
  rcases List.eq_nil_or_concat' bs with rfl | ⟨pre, b, rfl⟩
  · exact absurd rfl (row_ne_nil hf)
  · have hnat := toNat_place hf (place_mem heapLo pre [] b)
    exact ⟨_, (onChain_iff hf).mpr (by rw [hnat]; exact place_mem heapLo pre [] b),
      (next_eq_zero_iff hf hnat).mpr rfl⟩

/-- When the search finds nothing past the end of the chain, it finds the first block that
passes. -/
theorem found_first (hf : Forward bHeader heapArena m bs) (hnull : NullSafe m size align)
    (hfind : findBlock m size align fuel firstBlock = some (some blk)) :
    First m size align blk := by
  rcases first_or_none hf size align with ⟨c, hc⟩ | hnone
  · obtain ⟨fuel', hfound⟩ := hc.found hf
    obtain rfl := Option.some.inj (findBlock_unique hfind hfound)
    exact hc
  · obtain ⟨p, hon, hlast⟩ := exists_last hf
    by_cases hsmall : TooSmall m size p
    · obtain ⟨fuel', hend⟩ := search_end hf hnone hon hlast hsmall
      cases findBlock_unique hfind hend
    · have hmono := findBlock_mono bs.length hfind
      rw [Nat.add_comm, search_null hf hnone hon hlast hsmall] at hmono
      exact absurd hmono ((hnull hnone p hon hlast).resolve_left hsmall fuel blk)

end Forward

end B2OS.Heap
