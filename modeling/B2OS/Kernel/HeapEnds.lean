import B2OS.Kernel.HeapReach

/-!
# How `heap_alloc` Ends

`heap_alloc` should end with a block whenever a free block of the chain holds the padding, the
payload and the header of the rest, and should panic at the end of the chain otherwise. It
tests a block twice: without the padding but with the header, and with the padding but without
the header. A free block between the two tests goes wrong: with room for the padded payload
but not for the header it is taken, and the size of the rest wraps; when it is shorter than its
padding, the size that is tested wraps; and when it is the last one and fails the second test,
the search follows its link, which is `NULL`.

## Main results

* `endsProperly_iff`: on a row of blocks, `heap_alloc` ends properly if and only if no free
  block is such a `NoTightFit` for it.
* `endsProperly_iff_of_run`: the same in every state that a run of sound steps reaches.
* `alloc_follows_null`: on the heap that `heap_init` leaves, a request can follow `NULL`.
-/

namespace B2OS.Heap

open ByteMemory BlockChain B2OS.Kernel

/-- The blocks that the loop of `heap_alloc` looks at: behind a block that fails the first
test, the next one unless the link is `NULL`; behind one that fails the second, the next one. -/
inductive Looks (m : Memory) (size align : BitVec 32) : Addr → Prop
  | first : Looks m size align firstBlock
  | link {blk : Addr} : Looks m size align blk → TooSmall m size blk → next m blk ≠ 0 →
      Looks m size align (next m blk)
  | skip {blk : Addr} : Looks m size align blk → ¬ TooSmall m size blk →
      PadMisses m size align blk → Looks m size align (next m blk)

/-- `heap_alloc` does not look at `NULL`; it ends, and with a block when a free block of the
chain holds what is asked for; and neither `blk->sz - sz_pad` nor
`blk->sz - sz - sizeof(Block)` wraps. -/
structure EndsProperly (m : Memory) (size align : BitVec 32) : Prop where
  noNull : ¬ Looks m size align 0
  returns : ∃ fuel r, heapAlloc fuel size align m = some r
  finds : (∃ blk, OnChain m blk ∧ Holds m size align blk) →
    ∀ fuel, heapAlloc fuel size align m ≠ some none
  padRoom : ∀ blk, Looks m size align blk → ¬ TooSmall m size blk → szPad align blk ≠ 0 →
    (szPad align blk).toNat ≤ (sz m blk).toNat
  cutRoom : ∀ fuel blk, findBlock m size align fuel firstBlock = some (some blk) →
    (szPad align blk).toNat + size.toNat + blockSize.toNat ≤ (sz m blk).toNat

/-- Every free block with room for the payload and a header, with none before it that holds
all, holds all itself; or else it is not the last one, and is longer than the padding but not
long enough for padding and payload. -/
def NoTightFit (m : Memory) (size align : BitVec 32) : Prop :=
  ∀ blk, OnChain m blk → isFree m blk = true →
    size.toNat + blockSize.toNat ≤ (sz m blk).toNat →
    (∀ c, OnChain m c → c.toNat < blk.toNat → ¬ Holds m size align c) →
    Holds m size align blk ∨
      ((szPad align blk).toNat ≤ (sz m blk).toNat ∧
        (sz m blk).toNat < (szPad align blk).toNat + size.toNat ∧ next m blk ≠ 0)

section Tests

variable {m : Memory} {size align : BitVec 32} {blk : Addr} (hsize : size.toNat ≤ HEAP_SIZE.toNat)
include hsize

/-- Where `NoTightFit` holds, a block that passes both tests, with none before it, holds all. -/
theorem NoTightFit.holds (h : NoTightFit m size align) (hfirst : First m size align blk) :
    Holds m size align blk := by
  obtain ⟨hon, ⟨hroom, hpad⟩, hbefore⟩ := hfirst
  obtain ⟨hfree, hlen⟩ := (not_tooSmall_iff hsize).mp hroom
  obtain hholds | ⟨hle, hlt, -⟩ := h blk hon hfree hlen
    fun c hc hclt hholds => hbefore c hc hclt (hholds.accepts hsize)
  · exact hholds
  · refine absurd ⟨fun hzero => ?_, ?_⟩ hpad
    · rw [hzero] at hlt
      have hnat : (0 : BitVec 32).toNat = 0 := rfl
      omega
    · rw [BitVec.lt_def, BitVec.toNat_sub]
      have hsz := (sz m blk).isLt
      omega

end Tests

section Row

variable {m : Memory} {size align : BitVec 32} {bs : List (Block Request)} {blk p : Addr}

/-- Behind a block of the row stands the next one, if there is one. -/
theorem next_place (hf : Forward bHeader heapArena m bs) (hon : OnChain m p)
    (hne : next m p ≠ 0) :
    OnChain m (next m p) ∧ ∀ c, OnChain m c → c.toNat < (next m p).toNat → c.toNat ≤ p.toNat := by
  refine ⟨hon.next hne, fun c hc hlt => ?_⟩
  obtain ⟨pre, b, post, rfl, hp⟩ := mem_places_iff.mp ((onChain_iff hf).mp hon)
  obtain ⟨hnext, -, -⟩ := row_header hf hp
  have hc' := (onChain_iff hf).mp hc
  rw [places_append, places_cons, List.mem_append, List.mem_cons] at hc'
  rcases hc' with hc' | hc' | hc'
  · have hbounds := place_bounds hc'
    omega
  · omega
  · cases post with
    | nil => cases hc'
    | cons d post =>
        rw [link_cons] at hnext
        have hbounds := place_bounds hc'
        omega

/-- The search looks at every block with none before it that passes. -/
theorem looks_of_before (hf : Forward bHeader heapArena m bs) (hon : OnChain m p)
    (hbefore : ∀ c, OnChain m c → c.toNat < p.toNat → ¬ Accepts m size align c) :
    Looks m size align p := by
  induction hon with
  | head _ => exact .first
  | @next p hon hne ih =>
      have hlt : p.toNat < (next m p).toNat := by
        obtain ⟨pre, b, post, rfl, hp⟩ := mem_places_iff.mp ((onChain_iff hf).mp hon)
        obtain ⟨hnext, -, -⟩ := row_header hf hp
        cases post with
        | nil => exact absurd (BitVec.eq_of_toNat_eq hnext) hne
        | cons c post =>
            rw [hnext, link_cons, recordSize]
            omega
      have hlook := ih fun c hc hclt => hbefore c hc (hclt.trans hlt)
      by_cases hsmall : TooSmall m size p
      · exact hlook.link hsmall hne
      · exact hlook.skip hsmall (not_not.mp fun hpad => hbefore p hon hlt ⟨hsmall, hpad⟩)

/-- Where `NoTightFit` holds, the search stays on the chain, and has passed over blocks that do
not pass only. -/
theorem Looks.onChain (hf : Forward bHeader heapArena m bs)
    (hsize : size.toNat ≤ HEAP_SIZE.toNat) (htight : NoTightFit m size align)
    (h : Looks m size align p) :
    OnChain m p ∧ ∀ c, OnChain m c → c.toNat < p.toNat → ¬ Accepts m size align c := by
  have hstep : ∀ {p : Addr}, OnChain m p → next m p ≠ 0 → ¬ Accepts m size align p →
      (∀ c, OnChain m c → c.toNat < p.toNat → ¬ Accepts m size align c) →
      OnChain m (next m p) ∧
        ∀ c, OnChain m c → c.toNat < (next m p).toNat → ¬ Accepts m size align c := by
    intro p hon hne hself hbefore
    obtain ⟨hon', hnone⟩ := next_place hf hon hne
    refine ⟨hon', fun c hc hlt => ?_⟩
    rcases (hnone c hc hlt).lt_or_eq with hlt' | heq
    · exact hbefore c hc hlt'
    · obtain rfl : c = p := BitVec.eq_of_toNat_eq heq
      exact hself
  induction h with
  | first =>
      refine ⟨.head (by decide), fun c hc hlt => ?_⟩
      have hbounds := place_bounds ((onChain_iff hf).mp hc)
      have hfirst : firstBlock.toNat = heapLo := rfl
      omega
  | link _ hsmall hne ih => exact hstep ih.1 hne (fun hacc => hacc.1 hsmall) ih.2
  | @skip blk _ hsmall hpad ih =>
      obtain ⟨hon, hbefore⟩ := ih
      have hself : ¬ Accepts m size align blk := fun hacc => hacc.2 hpad
      obtain ⟨hfree, hlen⟩ := (not_tooSmall_iff hsize).mp hsmall
      obtain hholds | ⟨-, -, hne⟩ := htight blk hon hfree hlen
        fun c hc hlt hholds => hbefore c hc hlt (hholds.accepts hsize)
      · exact absurd (hholds.accepts hsize) hself
      · exact hstep hon hne hself hbefore

/-- Where `NoTightFit` holds, `heap_alloc` ends properly. -/
theorem NoTightFit.endsProperly (hf : Forward bHeader heapArena m bs)
    (hsize : size.toNat ≤ HEAP_SIZE.toNat) (h : NoTightFit m size align) :
    EndsProperly m size align where
  noNull hlook := by
    obtain ⟨hon, -⟩ := hlook.onChain hf hsize h
    have hplace := (onChain_iff hf).mp hon
    exact (hf.place_fits hplace).2 rfl
  returns := by
    rcases first_or_none hf size align with ⟨blk, hfirst⟩ | hnone
    · obtain ⟨fuel, hfind⟩ := hfirst.found hf
      exact ⟨fuel, _, by rw [heapAlloc, hfind, Option.map_some]⟩
    · obtain ⟨p, hon, hlast⟩ := exists_last hf
      have hsmall : TooSmall m size p := by
        by_contra hroom
        obtain ⟨hfree, hlen⟩ := (not_tooSmall_iff hsize).mp hroom
        obtain hholds | ⟨-, -, hne⟩ := h p hon hfree hlen
          fun c hc _ hholds => hnone c hc (hholds.accepts hsize)
        · exact hnone p hon (hholds.accepts hsize)
        · exact hne hlast
      obtain ⟨fuel, hend⟩ := search_end hf hnone hon hlast hsmall
      exact ⟨fuel, _, by rw [heapAlloc, hend, Option.map_some]⟩
  finds := by
    rintro ⟨c, hc, hholds⟩ fuel hcall
    obtain ⟨found, hfind, hmap⟩ := Option.map_eq_some_iff.mp hcall
    obtain rfl := Option.map_eq_none_iff.mp hmap
    rcases first_or_none hf size align with ⟨blk, hfirst⟩ | hnone
    · obtain ⟨fuel', hfound⟩ := hfirst.found hf
      cases findBlock_unique hfind hfound
    · exact hnone c hc (hholds.accepts hsize)
  padRoom blk hlook hroom _ := by
    obtain ⟨hon, hbefore⟩ := hlook.onChain hf hsize h
    obtain ⟨hfree, hlen⟩ := (not_tooSmall_iff hsize).mp hroom
    obtain ⟨-, hholds⟩ | ⟨hle, -, -⟩ := h blk hon hfree hlen
      fun c hc hlt hholds => hbefore c hc hlt (hholds.accepts hsize)
    · omega
    · exact hle
  cutRoom fuel blk hfind := by
    refine (h.holds hsize (found_first hf ?_ hfind)).2
    intro hnone c hc hlast
    refine .inl (by_contra fun hroom => ?_)
    obtain ⟨hfree, hlen⟩ := (not_tooSmall_iff hsize).mp hroom
    obtain hholds | ⟨-, -, hne⟩ := h c hc hfree hlen
      fun d hd _ hholds => hnone d hd (hholds.accepts hsize)
    · exact hnone c hc (hholds.accepts hsize)
    · exact hne hlast

/-- Where `heap_alloc` ends properly, `NoTightFit` holds. -/
theorem EndsProperly.noTightFit (hf : Forward bHeader heapArena m bs)
    (hsize : size.toNat ≤ HEAP_SIZE.toNat) (h : EndsProperly m size align) :
    NoTightFit m size align := by
  intro blk hon hfree hlen hbefore
  have hroom : ¬ TooSmall m size blk := (not_tooSmall_iff hsize).mpr ⟨hfree, hlen⟩
  -- the first block that passes is taken, so it holds all
  have hholds : ∀ c, First m size align c → Holds m size align c := by
    intro c hfirst
    obtain ⟨fuel, hfind⟩ := hfirst.found hf
    exact ⟨((not_tooSmall_iff hsize).mp hfirst.2.1.1).1, h.cutRoom fuel c hfind⟩
  have hnone : ∀ c, OnChain m c → c.toNat < blk.toNat → ¬ Accepts m size align c := by
    intro c hc hlt hacc
    rcases first_or_none hf size align with ⟨d, hd⟩ | hnone
    · have hdc : d.toNat ≤ c.toNat := not_lt.mp fun hcd => hd.2.2 c hc hcd hacc
      exact hbefore d hd.1 (by omega) (hholds d hd)
    · exact hnone c hc hacc
  have hlook := looks_of_before hf hon hnone
  by_cases hacc : Accepts m size align blk
  · exact .inl (hholds blk ⟨hon, hacc, hnone⟩)
  · have hpad : PadMisses m size align blk := not_not.mp fun hpad => hacc ⟨hroom, hpad⟩
    have hle := h.padRoom blk hlook hroom hpad.1
    refine .inr ⟨hle, ?_, fun hzero => h.noNull ?_⟩
    · have hlt := BitVec.lt_def.mp hpad.2
      rw [BitVec.toNat_sub] at hlt
      have hsz := (sz m blk).isLt
      omega
    · rw [← hzero]
      exact hlook.skip hroom hpad

end Row

/-- On a row of blocks, `heap_alloc` ends properly if and only if no block is a tight fit. -/
theorem endsProperly_iff {m : Memory} {bs : List (Block Request)}
    (hf : Forward bHeader heapArena m bs) {size : BitVec 32}
    (hsize : size.toNat ≤ HEAP_SIZE.toNat) (align : BitVec 32) :
    EndsProperly m size align ↔ NoTightFit m size align :=
  ⟨fun h => h.noTightFit hf hsize, fun h => h.endsProperly hf hsize⟩

/-- **How `heap_alloc` ends.** In every state that a run of sound steps reaches, `heap_alloc`
ends properly if and only if no free block is a tight fit. -/
theorem endsProperly_iff_of_run {m : Memory} {l : List HeapOp} {t : Session}
    (h : Run (Guarded (fun s op => op.Sound s) HeapStep) (Session.start m) l t)
    {size : BitVec 32} (hsize : size.toNat ≤ HEAP_SIZE.toNat) (align : BitVec 32) :
    EndsProperly t.mem size align ↔ NoTightFit t.mem size align := by
  obtain ⟨bs, hl⟩ := rowLayout_of_run h
  exact endsProperly_iff hl.forward hsize align

/-- The state after a call for 64 aligned bytes, and a request for 100. -/
theorem endsProperly_iff_after_alloc :
    EndsProperly ((Session.start fun _ => 0).alloc 1 64 16).mem 100 16 ↔
      NoTightFit ((Session.start fun _ => 0).alloc 1 64 16).mem 100 16 :=
  endsProperly_iff_of_run (m := fun _ => 0) (l := [.alloc 64 16])
    (.cons (start_step _ (by decide) (by decide)) (.nil _)) (by decide) 16

/-- The only block passes the first test and fails the second. -/
theorem alloc_follows_null :
    ¬ ∀ (m : Memory) (l : List HeapOp) (t : Session),
      Run (Guarded (fun _ op => op.InRange) HeapStep) (Session.start m) l t →
        ∀ size align : BitVec 32, size.toNat ≤ HEAP_SIZE.toNat → (∃ k, align.toNat = 2 ^ k) →
          EndsProperly t.mem size align := by
  intro h
  have hends := h (fun _ => 0) [] _ (.nil _) 0x31FFFE0 64 (by decide) ⟨6, rfl⟩
  have hrec := heapInit_record fun _ => 0
  have hsz : sz (Session.start fun _ => 0).mem firstBlock = HEAP_SIZE - blockSize :=
    congrArg Record.word2 hrec
  have hfree : isFree (Session.start fun _ => 0).mem firstBlock = true :=
    congrArg Record.flag hrec
  have hnext : next (Session.start fun _ => 0).mem firstBlock = 0 := congrArg Record.word0 hrec
  have hroom : ¬ TooSmall (Session.start fun _ => 0).mem 0x31FFFE0 firstBlock := by
    rw [TooSmall, hfree, hsz]
    decide
  have hpad : PadMisses (Session.start fun _ => 0).mem 0x31FFFE0 64 firstBlock := by
    rw [PadMisses, hsz]
    decide
  have hlook := Looks.first.skip hroom hpad
  rw [hnext] at hlook
  exact hends.noNull hlook

end B2OS.Heap
